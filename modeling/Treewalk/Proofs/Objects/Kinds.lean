import Treewalk.Proofs.Objects.Accounts
import Treewalk.Proofs.Run.Spares

/-!
# Only bound methods are initializers

A function statement makes a function that is no initializer, whatever its name. So a function value
that is an initializer was read off an instance, or by way of `super`, and is bound to an instance.
-/

namespace Treewalk

open Run

/-- Every function has an origin, and those that are initializers were bound. -/
structure Account.Kinds (a : Account) : Prop where
  origins : a.history.origins.size = a.machine.store.functions.size
  bound : ∀ (f : FunctionId) closure, a.machine.store.functions[f]? = some closure →
    closure.isInitializer = true → ∃ self, a.history.origins[f]? = some (.bound self)

/-- A new function that is no initializer, or is bound. -/
theorem Account.Kinds.push {a b : Account} (h : a.Kinds) {closure : Closure} {origin : Origin}
    (functions : b.machine.store.functions = a.machine.store.functions.push closure)
    (origins : b.history.origins = a.history.origins.push origin)
    (bound : closure.isInitializer = true → ∃ self, origin = .bound self) : b.Kinds where
  origins := by rw [functions, origins, Array.size_push, Array.size_push, h.origins]
  bound f other found kind := by
    rw [functions, Array.getElem?_push] at found
    rw [origins, Array.getElem?_push, h.origins]
    split at found
    · cases found
      obtain ⟨self, rfl⟩ := bound kind
      exact ⟨self, if_pos ‹_›⟩
    · rw [if_neg ‹_›]
      exact h.bound f other found kind

namespace Chronicle

/-- At all accounts the initializers are bound. -/
@[reducible]
def kinds : Regime Chronicle.platform where
  holds k := ∀ a ∈ k.accounts, a.Kinds
  le _ _ := True
  le_refl _ := trivial
  le_trans _ _ := trivial
  region _ _ := True
  region_mono _ _ := trivial
  holds_setEnv _ h := by
    obtain ⟨now, older⟩ := List.forall_mem_cons.1 h
    exact List.forall_mem_cons.2 ⟨⟨now.origins, now.bound⟩, older⟩
  le_setEnv _ _ := trivial

variable {α : Type} {s : Chronicle}

theorem kinds_moment {A : Chronicle → α → Prop} {q : Chronicling α} (doing : Doing)
    (h : kinds.Upholds s A q) : kinds.Upholds s A (moment doing q) := by
  intro k _ holds
  have now := holds k.now (.head _)
  exact h { k with moments := ⟨doing, k.now⟩ :: k.moments } trivial
    (List.forall_mem_cons.2 ⟨now, holds⟩)

/-- It is enough to look at what a step makes of the last account. -/
theorem kinds_of {A : Chronicle → α → Prop} {q : Chronicling α} (any : ∀ t a, A t a)
    (h : ∀ k : Chronicle, k.now.Kinds →
      (endState (q k)).moments = k.moments ∧ (endState (q k)).now.Kinds) :
    kinds.Upholds s A q := by
  intro k _ holds
  obtain ⟨moments, now⟩ := h k (holds k.now (.head _))
  revert moments now
  cases q k with
  | ok a k' =>
    obtain ⟨account, _⟩ := k'
    rintro rfl now
    exact ⟨trivial, List.forall_mem_cons.2 ⟨now, (List.forall_mem_cons.1 holds).2⟩, any _ a⟩
  | error e k' =>
    obtain ⟨account, _⟩ := k'
    rintro rfl now
    exact ⟨trivial, List.forall_mem_cons.2 ⟨now, (List.forall_mem_cons.1 holds).2⟩⟩

/-- A step that makes no function. -/
theorem kinds_lift {A : Chronicle → α → Prop} {p : Run α} (any : ∀ t a, A t a)
    (h : ∀ m, (endState (p m)).store.functions = m.store.functions) :
    kinds.Upholds s A (lift p) := by
  refine kinds_of any fun k now => ?_
  have same := h k.now.machine
  unfold lift
  revert same
  cases p k.now.machine with
  | ok a m | error e m =>
    intro same
    refine ⟨rfl, ?_, ?_⟩
    · exact now.origins.trans (congrArg Array.size same).symm
    · intro f closure found kind
      exact now.bound f closure (same ▸ found) kind

theorem kinds_plain {p : Run α} (h : Spares p) : kinds.Upholds s kinds.Any (lift p) :=
  kinds_lift (fun _ _ => trivial) fun m => (h m).functions

theorem kinds_value {p : Run Value} (h : Spares p) : kinds.Upholds s kinds.Valid (lift p) :=
  kinds_lift (fun _ _ _ _ => trivial) fun m => (h m).functions

theorem kinds_consult (f : Account → α) : kinds.Upholds s kinds.Any (consult f) :=
  kinds_of (fun _ _ => trivial) fun _ now => ⟨rfl, now⟩

theorem kinds_newMethod (f : Method) (i : InstanceId) :
    kinds.Upholds s kinds.Valid (newMethod f i) :=
  kinds_of (fun _ _ _ _ => trivial) fun _ now =>
    ⟨rfl, now.push rfl rfl fun _ => ⟨_, rfl⟩⟩

theorem kinds_readProperty (i : InstanceId) (name : Token) :
    kinds.Upholds s kinds.Valid (readProperty i name) := by
  refine (kinds_plain (.gets _)).bind fun t found _ _ => ?_
  split
  · exact .pure fun _ _ _ _ => trivial
  · refine (kinds_consult _).bind fun u method _ _ => ?_
    cases method with
    | some method => exact kinds_newMethod method i
    | none => exact kinds_value (.fault _ _)
  · exact kinds_value (.fault _ _)

theorem kinds_readSuper (id : NodeId) (keyword method : Token) :
    kinds.Upholds s kinds.Valid (readSuper id keyword method) := by
  refine (kinds_plain (.gets _)).bind fun t distance _ _ => ?_
  cases distance with
  | none => exact kinds_value (.fault _ _)
  | some distance =>
    refine (kinds_plain (.gets _)).bind fun u above _ _ => ?_
    split
    · refine (kinds_plain (.gets _)).bind fun v this _ _ => ?_
      split
      · refine (kinds_consult _).bind fun w found _ _ => ?_
        cases found with
        | some found => exact kinds_newMethod found _
        | none => exact kinds_value (.fault _ _)
      · exact kinds_value (.fault _ _)
    · exact kinds_value (.fault _ _)

theorem kinds_declareFunction (decl : FunctionDecl) :
    kinds.Upholds s kinds.Any (declareFunction decl) :=
  kinds_of (fun _ _ => trivial) fun _ now => ⟨rfl, now.push rfl rfl (absurd · Bool.false_ne_true)⟩

theorem kinds_makeClass (name : Token) (methods : List FunctionDecl) (above : Option ClassId)
    (frame : FrameId) :
    kinds.Upholds s kinds.Any (do
      record fun h => h.addDeclaration ⟨above, methods, frame⟩
      let made ← lift (newClass ⟨name.lexeme, above, Bindings.ofList (methods.map fun decl =>
        (decl.name.lexeme, Closure.mk decl frame decl.isInitializer))⟩)
      lift (assignName name made)) := by
  have recorded : kinds.Upholds s kinds.Any
      (record fun h => h.addDeclaration ⟨above, methods, frame⟩) :=
    kinds_of (fun _ _ => trivial) fun _ now => ⟨rfl, now.origins, now.bound⟩
  refine recorded.bind fun _ _ _ _ => ?_
  refine (kinds_lift (fun _ _ => trivial) fun _ => rfl).bind fun _ made _ _ => ?_
  exact kinds_plain (.assignName name made)

theorem kinds_declareClass (name : Token) (superclass : Option Variable)
    (methods : List FunctionDecl) :
    kinds.Upholds s kinds.Any (declareClass name superclass methods) := by
  refine (kinds_plain (.define _ _)).bind fun t _ _ _ => ?_
  cases superclass with
  | none =>
    simp only [pure_bind]
    exact (kinds_plain (.gets _)).bind fun _ outer _ _ => kinds_makeClass name methods _ outer
  | some ref =>
    simp only [pure_bind, bind_map_left]
    refine (kinds_plain (.readSuperclass ref)).bind fun _ c _ _ => ?_
    refine (kinds_plain (.gets _)).bind fun _ outer _ _ => ?_
    refine (kinds_plain (.newFrame _ _)).bind fun _ frame _ _ => ?_
    exact kinds_makeClass name methods _ frame

theorem kinds_oneDeeper {q : Chronicling Value} (paren : Token)
    (h : kinds.Upholds s kinds.Valid q) : kinds.Upholds s kinds.Valid (oneDeeper paren q) := by
  have shallow {k : Chronicle} (depth : Nat) (holds : kinds.holds k) :
      kinds.holds (k.atDepth depth) := by
    obtain ⟨now, older⟩ := List.forall_mem_cons.1 holds
    exact List.forall_mem_cons.2 ⟨⟨now.origins, now.bound⟩, older⟩
  intro k _ holds
  unfold oneDeeper
  split
  · exact ⟨trivial, holds⟩
  · have inside := h (k.atDepth (k.now.machine.depth + 1)) trivial (shallow _ holds)
    revert inside
    cases q (k.atDepth (k.now.machine.depth + 1)) with
    | ok value k' => exact fun inside => ⟨trivial, shallow _ inside.2.1, fun _ _ => trivial⟩
    | error e k' => exact fun inside => ⟨trivial, shallow _ inside.2⟩

/-- No operation makes an initializer that is not bound. -/
theorem kinds_upkeep : Upkeep kinds where
  read id name := kinds_moment _ (kinds_value (.readVariable id name))
  assign id name _ := kinds_moment _ (kinds_plain (.assignVariable id name _))
  readSuper id keyword method := kinds_moment _ (kinds_readSuper id keyword method)
  readProperty name _ := kinds_moment _ (kinds_readProperty _ name)
  setField _ _ _ := kinds_moment _
    (kinds_of (fun _ _ => trivial) fun _ now => ⟨rfl, now.origins, now.bound⟩)
  callee? _ := kinds_moment _
    (kinds_of (fun _ _ _ _ _ _ _ => trivial) fun _ now => ⟨rfl, now⟩)
  oneDeeper := kinds_oneDeeper
  readClock := kinds_moment _ (kinds_value .readClock)
  newInstance _ := kinds_moment _ (kinds_lift (fun _ _ _ _ => trivial) fun _ => rfl)
  bindMethod _ _ := kinds_moment _
    (kinds_of (fun _ _ => trivial) fun _ now => ⟨rfl, now.origins, now.bound⟩)
  enterCall _ _ := (kinds_moment .other (kinds_plain (.newFrame _ _))).bind
    fun _ _ _ _ => .pure fun _ _ => trivial
  receiver _ := kinds_moment _ (kinds_value ((Spares.gets _).bind fun _ => .pure _))
  enterBlock _ := (kinds_moment .other (kinds_plain
      ((Spares.gets _).bind fun outer => .newFrame outer ∅))).bind fun _ _ _ _ =>
    (kinds_consult _).bind fun _ _ _ _ => .pure fun _ _ => trivial
  declareFunction decl := kinds_moment _ (kinds_declareFunction decl)
  declareClass name superclass methods :=
    kinds_moment _ (kinds_declareClass name superclass methods)
  announce _ := .pure fun _ _ => trivial
  define name _ := kinds_moment _ (kinds_plain (.define name _))
  print value := kinds_moment _ (kinds_plain (.print value))
  flush := kinds_moment _ (kinds_plain .flush)

/-- At every account of a session the functions that are initializers are bound. -/
theorem runAll_kinds (sink : Sink) (clock : Nat → Float) (batches : List (Nat × List UInt8)) :
    ∀ a ∈ (runAll sink clock batches).2.state.accounts, a.Kinds := by
  have loaded (c : Compiled) (k : Chronicle) (holds : kinds.holds k) :
      True ∧ kinds.holds (Engine.chronicle.load c k) := by
    obtain ⟨now, older⟩ := List.forall_mem_cons.1 holds
    exact ⟨trivial, List.forall_mem_cons.2 ⟨⟨now.origins, now.bound⟩, older⟩⟩
  have start : kinds.holds (initial sink clock) :=
    List.forall_mem_singleton.2 ⟨rfl, fun f closure found => by cases found⟩
  exact (Engine.Session.runAll_upheld (H := Engine.chronicle) kinds_upkeep loaded
    ⟨initial sink clock, 0⟩ start batches).2

end Chronicle

end Treewalk
