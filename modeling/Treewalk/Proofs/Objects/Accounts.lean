import Treewalk.Proofs.Objects.Growth
import Treewalk.Proofs.Objects.InStep

/-!
# The accounts of a session

Every account that a session ever had is sound, and each grew out of those before it. Together with
the simulation: the session is that of the machine, and its moments stand where they are said to.
-/

namespace Treewalk

open Run

namespace Chronicle

/-- Every account is sound, and each grew out of those before it. -/
structure Lasting (k : Chronicle) : Prop where
  sound : ∀ a ∈ k.accounts, a.ledger.Sound
  grown : k.accounts.Pairwise fun later earlier => earlier.ledger.Grows later.ledger

namespace Lasting

variable {k : Chronicle}

theorem now (h : k.Lasting) : k.now.ledger.Sound := h.sound k.now (.head _)

/-- The run goes on to an account that grows out of the last one. -/
theorem goOn (h : k.Lasting) {a : Account} (grows : k.now.ledger.Grows a.ledger)
    (sound : a.ledger.Sound) : Lasting { k with now := a } where
  sound := by
    have older := (List.forall_mem_cons.1 h.sound).2
    exact List.forall_mem_cons.2 ⟨sound, older⟩
  grown := by
    obtain ⟨latest, older⟩ := List.pairwise_cons.1 h.grown
    exact List.pairwise_cons.2 ⟨fun b member => (latest b member).trans grows, older⟩

/-- A moment is written down with the account that it finds. -/
theorem note (h : k.Lasting) (doing : Doing) :
    Lasting { k with moments := ⟨doing, k.now⟩ :: k.moments } where
  sound := List.forall_mem_cons.2 ⟨h.now, h.sound⟩
  grown := by
    refine List.pairwise_cons.2 ⟨fun b member => ?_, h.grown⟩
    rcases List.mem_cons.1 member with rfl | member
    · exact .refl _
    · exact (List.pairwise_cons.1 h.grown).1 b member

end Lasting

/-- The accounts of a run are sound, and grow out of each other. -/
@[reducible]
def lasting : Regime Chronicle.platform where
  holds := Lasting
  le k k' := k.now.ledger.Grows k'.now.ledger
  le_refl _ := .refl _
  le_trans := .trans
  region k := k.now.machine.store.Gives
  region_mono grows given := grows.gives given
  holds_setEnv _ h := h.goOn (.refl _) h.now
  le_setEnv _ _ := .refl _

variable {α : Type} {s : Chronicle} {A : Chronicle → α → Prop}

theorem upholds_moment {q : Chronicling α} (doing : Doing) (h : lasting.Upholds s A q) :
    lasting.Upholds s A (moment doing q) := by
  intro k grown holds
  exact h { k with moments := ⟨doing, k.now⟩ :: k.moments } grown (holds.note doing)

/-- It is enough to look at what a step makes of the last account. -/
theorem upholds_of {q : Chronicling α}
    (h : ∀ k : Chronicle, s.now.ledger.Grows k.now.ledger → k.now.ledger.Sound → match q k with
      | .ok value k' => k'.moments = k.moments ∧ (k.now.ledger.Grows k'.now.ledger ∧
        k'.now.ledger.Sound) ∧ A k' value
      | .error _ k' => k'.moments = k.moments ∧ k.now.ledger.Grows k'.now.ledger ∧
        k'.now.ledger.Sound) :
    lasting.Upholds s A q := by
  intro k grown holds
  have step := h k grown holds.now
  revert step
  cases q k with
  | ok value k' =>
    obtain ⟨now, moments⟩ := k'
    rintro ⟨rfl, ⟨grows, sound⟩, this⟩
    exact ⟨grows, holds.goOn grows sound, this⟩
  | error e k' =>
    obtain ⟨now, moments⟩ := k'
    rintro ⟨rfl, grows, sound⟩
    exact ⟨grows, holds.goOn grows sound⟩

/-- A run on the machine, with nothing to write down. -/
theorem upholds_lift {p : Run α}
    (h : ∀ k : Chronicle, s.now.ledger.Grows k.now.ledger → k.now.ledger.Sound → match p k.now.machine with
      | .ok value machine =>
        (k.now.ledger.Grows ⟨machine.store, k.now.history⟩ ∧
          Ledger.Sound ⟨machine.store, k.now.history⟩) ∧
        A { k with now := { k.now with machine } } value
      | .error _ machine => k.now.ledger.Grows ⟨machine.store, k.now.history⟩ ∧
        Ledger.Sound ⟨machine.store, k.now.history⟩) :
    lasting.Upholds s A (lift p) := by
  refine upholds_of fun k grown sound => ?_
  have step := h k grown sound
  unfold lift
  revert step
  cases p k.now.machine with
  | ok value machine => exact fun step => ⟨rfl, step.1, step.2⟩
  | error e machine => exact fun step => ⟨rfl, step⟩

/-- A run that leaves the store alone. -/
theorem upholds_calm {p : Run α}
    (h : ∀ k : Chronicle, s.now.ledger.Grows k.now.ledger → k.now.ledger.Sound → match p k.now.machine with
      | .ok value machine => machine.store = k.now.machine.store ∧
        A { k with now := { k.now with machine } } value
      | .error _ machine => machine.store = k.now.machine.store) :
    lasting.Upholds s A (lift p) := by
  refine upholds_lift fun k grown sound => ?_
  have step := h k grown sound
  revert step
  cases p k.now.machine with
  | ok value machine =>
    rintro ⟨same, this⟩
    dsimp only
    rw [same]
    exact ⟨⟨.refl _, sound⟩, this⟩
  | error e machine =>
    intro same
    dsimp only at same ⊢
    rw [same]
    exact ⟨.refl _, sound⟩

theorem upholds_gets {f : Machine → α}
    (h : ∀ k : Chronicle, s.now.ledger.Grows k.now.ledger → k.now.ledger.Sound → A k (f k.now.machine)) :
    lasting.Upholds s A (lift (gets f)) :=
  upholds_calm fun k grown sound => ⟨rfl, h k grown sound⟩

theorem upholds_look (f : Machine → α) : lasting.Upholds s lasting.Any (lift (gets f)) :=
  upholds_gets fun _ _ _ => trivial

theorem upholds_consult (f : Account → α) : lasting.Upholds s lasting.Any (consult f) :=
  upholds_of fun _ _ sound => ⟨rfl, ⟨.refl _, sound⟩, trivial⟩

theorem upholds_fault (place : Token) (cause : RuntimeError.Cause) :
    lasting.Upholds s A (lift (Run.fault place cause)) :=
  upholds_calm fun _ _ _ => rfl

/-! ## Variables and frames -/

theorem upholds_readVariable (id : NodeId) (name : Token) :
    lasting.Upholds s lasting.Valid (lift (readVariable id name)) := by
  refine upholds_calm fun k _ sound => ?_
  rcases Recorder.readVariable_cases id name k.now.machine with ⟨value, read⟩ | read <;> rw [read]
  exact ⟨rfl, sound.readVariable rfl read⟩

theorem upholds_defineIn (f : FrameId) (name : String) {value : Value}
    (given : lasting.Valid s value) :
    lasting.Upholds s lasting.Any (lift (defineIn f name value)) :=
  upholds_lift fun _ grown sound => ⟨sound.define f name (grown.value given), trivial⟩

theorem upholds_define (name : String) {value : Value} (given : lasting.Valid s value) :
    lasting.Upholds s lasting.Any (lift (define name value)) :=
  upholds_lift fun k grown sound => ⟨sound.define k.now.machine.env name (grown.value given), trivial⟩

theorem upholds_assignVariable (id : NodeId) (name : Token) {value : Value}
    (given : lasting.Valid s value) :
    lasting.Upholds s lasting.Any (lift (assignVariable id name value)) := by
  unfold assignVariable
  rw [lift_bind]
  refine (upholds_look _).bind fun t found grown _ => ?_
  cases found with
  | some f => exact upholds_defineIn f _ (Regime.valid_mono grown given)
  | none => exact upholds_fault _ _

theorem upholds_assignName (name : Token) {value : Value} (given : lasting.Valid s value) :
    lasting.Upholds s lasting.Any (lift (assignName name value)) := by
  unfold assignName
  rw [lift_bind]
  refine (upholds_look _).bind fun t found grown _ => ?_
  cases found with
  | some f => exact upholds_defineIn f _ (Regime.valid_mono grown given)
  | none => exact upholds_fault _ _

theorem upholds_newFrame (parent : FrameId) {values : Bindings Value}
    (given : ∀ name value, values.get? name = some value → lasting.Valid s value) :
    lasting.Upholds s lasting.Any (lift (newFrame parent values)) :=
  upholds_lift fun _ grown sound =>
    ⟨sound.pushFrame _ fun name value found => grown.value (given name value found), trivial⟩

/-! ## Instances, functions and classes -/

theorem upholds_bindMethod (f : Method) {i : InstanceId} (given : lasting.Valid s (.object i)) :
    lasting.Upholds s lasting.Any (bindMethod f i) := by
  unfold bindMethod Run.bindMethod
  rw [lift_bind, bind_assoc]
  refine (upholds_newFrame _ fun name value found => ?_).bind fun _ _ _ _ => .pure fun _ _ => trivial
  exact Bindings.put_in Bindings.empty_in given name value found

theorem upholds_newMethod (f : Method) {i : InstanceId} (given : lasting.Valid s (.object i)) :
    lasting.Upholds s lasting.Valid (newMethod f i) := by
  refine (upholds_bindMethod f given).bind fun t bound grown _ => upholds_of fun k _ sound => ?_
  have pushed := sound.pushFunction bound.closure (.bound ⟨i, f.above⟩)
  refine ⟨rfl, pushed, ?_⟩
  rintro held ⟨⟩
  exact Nat.lt_of_lt_of_eq (Nat.lt_succ_self _) (Array.size_push _).symm

theorem upholds_readProperty {i : InstanceId} (name : Token)
    (given : lasting.Valid s (.object i)) :
    lasting.Upholds s lasting.Valid (readProperty i name) := by
  have found : lasting.Upholds s
      (fun t found => ∀ value c, found = some (some value, c) → lasting.Valid t value)
      (lift (gets fun m => m.store.instances[i]?.map fun x =>
        (x.fields.get? name.lexeme, x.ofClass))) := by
    refine upholds_gets fun k _ sound value c same => ?_
    obtain ⟨x, there, pair⟩ := Option.map_eq_some_iff.1 same
    exact sound.field there (Prod.mk.inj pair).1
  refine found.bind fun t found grown fields => ?_
  split
  · next value c => exact .pure fun u le => Regime.valid_mono le (fields value c rfl)
  · refine (upholds_consult _).bind fun u method le _ => ?_
    cases method with
    | some method =>
      exact upholds_newMethod method (Regime.valid_mono le (Regime.valid_mono grown given))
    | none => exact upholds_fault _ _
  · exact upholds_fault _ _

theorem upholds_getAt? (distance : Nat) (name : String) (skip : Prop) [Decidable skip] :
    lasting.Upholds s (fun t found => ∀ value, found = some value → lasting.Valid t value)
      (lift (gets fun m => if skip then none else m.store.frames.getAt? m.env distance name)) := by
  refine upholds_gets fun k _ sound value found => ?_
  split at found
  · cases found
  · exact sound.getAt? found

theorem upholds_readSuper (id : NodeId) (keyword method : Token) :
    lasting.Upholds s lasting.Valid (readSuper id keyword method) := by
  refine (upholds_look _).bind fun t distance _ _ => ?_
  cases distance with
  | none => exact upholds_fault _ _
  | some distance =>
    refine (upholds_look _).bind fun u above _ _ => ?_
    split
    · refine (upholds_getAt? _ _ _).bind fun v this _ known => ?_
      split
      · next i =>
        refine (upholds_consult _).bind fun w found le _ => ?_
        cases found with
        | some found => exact upholds_newMethod found (Regime.valid_mono le (known _ rfl))
        | none => exact upholds_fault _ _
      · exact upholds_fault _ _
    · exact upholds_fault _ _

theorem upholds_setField {i : InstanceId} (name : String) {value : Value}
    (given : lasting.Valid s (.object i)) (stored : lasting.Valid s value) :
    lasting.Upholds s lasting.Any (setField i name value) := by
  refine upholds_of fun k grown sound => ?_
  have known : i < k.now.machine.store.instances.size := grown.value given (.object i) rfl
  exact ⟨rfl, sound.setField known name (grown.value stored), trivial⟩

theorem upholds_newInstance {c : ClassId} (given : lasting.Valid s (.cls c)) :
    lasting.Upholds s (fun t i => lasting.Valid t (.object i)) (lift (newInstance c)) := by
  refine upholds_lift fun k grown sound => ?_
  have known : c < k.now.machine.store.classes.size := grown.value given (.cls c) rfl
  refine ⟨sound.pushInstance known, ?_⟩
  rintro held ⟨⟩
  exact Nat.lt_of_lt_of_eq (Nat.lt_succ_self _) (Array.size_push _).symm

theorem upholds_declareFunction (decl : FunctionDecl) :
    lasting.Upholds s lasting.Any (declareFunction decl) := by
  refine upholds_of fun k _ sound => ?_
  obtain ⟨grows, pushed⟩ := sound.pushFunction ⟨decl, k.now.machine.env, false⟩
    (.declared k.now.receiver)
  have given : (Value.function k.now.machine.store.functions.size).In
      (k.now.machine.store.pushFunction ⟨decl, k.now.machine.env, false⟩).Gives := by
    rintro held ⟨⟩
    exact Nat.lt_of_lt_of_eq (Nat.lt_succ_self _) (Array.size_push _).symm
  obtain ⟨grows', defined⟩ := pushed.define k.now.machine.env decl.name.lexeme given
  exact ⟨rfl, ⟨grows.trans grows', defined⟩, trivial⟩

theorem upholds_readSuperclass (ref : Variable) :
    lasting.Upholds s (fun t c => lasting.Valid t (.cls c)) (lift (readSuperclass ref)) := by
  unfold readSuperclass
  rw [lift_bind]
  refine (upholds_readVariable ref.id ref.name).bind fun t value _ given => ?_
  cases value with
  | cls c => exact .pure fun u le => Regime.valid_mono le given
  | _ => exact upholds_fault _ _

/-- A class is made of a superclass that is there. -/
theorem upholds_makeClass (name : Token) (methods : List FunctionDecl) {above : Option ClassId}
    (frame : FrameId) (given : ∀ c, above = some c → lasting.Valid s (.cls c)) :
    lasting.Upholds s lasting.Any (do
      record fun h => h.addDeclaration ⟨above, methods, frame⟩
      let made ← lift (newClass ⟨name.lexeme, above, Bindings.ofList (methods.map fun decl =>
        (decl.name.lexeme, Closure.mk decl frame decl.isInitializer))⟩)
      lift (assignName name made)) := by
  rw [← bind_assoc]
  refine Regime.Upholds.bind (A := fun t value => lasting.Valid t value) ?_
    fun t value _ made => upholds_assignName name made
  refine upholds_of fun k grown sound => ?_
  have older : ∀ c, above = some c → c < k.now.machine.store.classes.size :=
    fun c same => grown.value (given c same) (.cls c) rfl
  refine ⟨rfl, sound.pushClass ⟨rfl, Declaration.methods_get? ⟨above, methods, frame⟩⟩ older, ?_⟩
  rintro held ⟨⟩
  exact Nat.lt_of_lt_of_eq (Nat.lt_succ_self _) (Array.size_push _).symm

theorem upholds_declareClass (name : Token) (superclass : Option Variable)
    (methods : List FunctionDecl) :
    lasting.Upholds s lasting.Any (declareClass name superclass methods) := by
  refine (upholds_define name.lexeme (Value.in_nil _)).bind fun t _ _ _ => ?_
  cases superclass with
  | none =>
    simp only [pure_bind]
    exact (upholds_look _).bind fun u outer _ _ => upholds_makeClass name methods outer nofun
  | some ref =>
    simp only [pure_bind, bind_map_left]
    refine (upholds_readSuperclass ref).bind fun u c _ given => ?_
    refine (upholds_look _).bind fun v outer le _ => ?_
    have given := Regime.valid_mono le given
    refine (upholds_newFrame outer fun x value found => ?_).bind fun w frame le' _ => ?_
    · exact Bindings.put_in Bindings.empty_in given x value found
    · refine upholds_makeClass name methods frame fun c' same => ?_
      cases same
      exact Regime.valid_mono le' given

/-! ## Calls -/

theorem upholds_callee? {value : Value} (given : lasting.Valid s value) :
    lasting.Upholds s
      (fun t found => ∀ c initializer, found = some (.cls c initializer) →
        lasting.Valid t (.cls c)) (callee? value) := by
  refine upholds_of fun k grown sound => ⟨rfl, ⟨.refl _, sound⟩, ?_⟩
  rintro c initializer same
  have given := grown.value given
  obtain ⟨found, callable, described⟩ := Option.map_eq_some_iff.1 same
  cases value with
  | cls c' =>
    obtain ⟨of, known, rfl⟩ := Option.map_eq_some_iff.1 callable
    rw [Store.callable?] at known
    split at known
    · cases known
      cases described
      exact given
    · cases known
  | function f =>
    obtain ⟨of, known, rfl⟩ := Option.map_eq_some_iff.1 callable
    obtain ⟨closure, -, rfl⟩ := Option.map_eq_some_iff.1 known
    cases described
  | clock =>
    cases callable
    cases described
  | _ => cases callable

theorem upholds_oneDeeper {q : Chronicling Value} (paren : Token)
    (h : lasting.Upholds s lasting.Valid q) :
    lasting.Upholds s lasting.Valid (oneDeeper paren q) := by
  intro k grown holds
  unfold oneDeeper
  split
  · exact ⟨.refl _, holds⟩
  · have inside := h (k.atDepth (k.now.machine.depth + 1)) grown (holds.goOn (.refl _) holds.now)
    revert inside
    cases q (k.atDepth (k.now.machine.depth + 1)) with
    | ok value k' => exact fun inside => ⟨inside.1, inside.2.1.goOn (.refl _) inside.2.1.now, inside.2.2⟩
    | error e k' => exact fun inside => ⟨inside.1, inside.2.goOn (.refl _) inside.2.now⟩

/-- A call binds its arguments and nothing else. -/
theorem bindArguments_in {R : Region} {decl : FunctionDecl} {arguments : List Value}
    (each : ∀ value ∈ arguments, value.In R) (name : String) (value : Value)
    (found : (decl.bindArguments arguments).get? name = some value) : value.In R :=
  each value (List.of_mem_zip (Bindings.mem_of_get?_ofList found)).2

theorem upholds_receiver (f : Closure) :
    lasting.Upholds s lasting.Valid (lift (Platform.machine.receiver f)) := by
  have look : Platform.machine.receiver f =
      gets fun m => (m.store.frames.getAt? f.frame 0 thisName).getD .nil := rfl
  rw [look]
  refine upholds_gets fun k _ sound => ?_
  cases found : k.now.machine.store.frames.getAt? f.frame 0 thisName with
  | none => exact Value.in_nil _
  | some value => exact sound.getAt? found

theorem upholds_enterBlock (body : List Stmt) :
    lasting.Upholds s lasting.Any (lift (Platform.machine.enterBlock body)) :=
  upholds_lift fun k _ sound => ⟨sound.pushFrame (some k.now.machine.env) Bindings.empty_in, trivial⟩

theorem upholds_write (piece : String) : lasting.Upholds s lasting.Any (lift (write piece)) := by
  refine upholds_calm fun k _ _ => ?_
  unfold Run.write
  cases k.now.machine.sink.refusal k.now.machine.sink.written piece with
  | some r => rfl
  | none => exact ⟨rfl, trivial⟩

theorem upholds_print (value : Value) : lasting.Upholds s lasting.Any (lift (print value)) := by
  unfold Run.print
  rw [lift_bind]
  refine (upholds_look _).bind fun _ _ _ _ => ?_
  rw [lift_bind]
  exact (upholds_write _).bind fun _ _ _ _ => upholds_write "\n"

theorem upholds_flush : lasting.Upholds s lasting.Any (lift flush) := by
  refine upholds_calm fun k _ _ => ?_
  unfold Run.flush
  cases k.now.machine.sink.flushRefusal with
  | none => exact ⟨rfl, trivial⟩
  | some message => rfl

/-- Every operation leaves the accounts sound. -/
theorem upkeep : Upkeep lasting where
  read id name := upholds_moment _ (upholds_readVariable id name)
  assign id name given := upholds_moment _ (upholds_assignVariable id name given)
  readSuper id keyword method := upholds_moment _ (upholds_readSuper id keyword method)
  readProperty name given := upholds_moment _ (upholds_readProperty name given)
  setField name given stored := upholds_moment _ (upholds_setField name given stored)
  callee? given := upholds_moment _ (upholds_callee? given)
  oneDeeper := upholds_oneDeeper
  readClock := upholds_moment _ (upholds_calm fun _ _ _ => ⟨rfl, nofun⟩)
  newInstance given := upholds_moment _ (upholds_newInstance given)
  bindMethod f given := upholds_moment _ (upholds_bindMethod f given)
  enterCall f each :=
    (upholds_moment .other (upholds_newFrame f.closure.frame (bindArguments_in each))).bind
      fun _ _ _ _ => .pure fun _ _ => trivial
  receiver f := upholds_moment _ (upholds_receiver f.closure)
  enterBlock body := (upholds_moment .other (upholds_enterBlock body)).bind fun _ _ _ _ =>
    (upholds_consult _).bind fun _ _ _ _ => .pure fun _ _ => trivial
  declareFunction decl := upholds_moment _ (upholds_declareFunction decl)
  declareClass name superclass methods :=
    upholds_moment _ (upholds_declareClass name superclass methods)
  announce _ := .pure fun _ _ => trivial
  define name given := upholds_moment _ (upholds_define name given)
  print value := upholds_moment _ (upholds_print value)
  flush := upholds_moment _ upholds_flush

theorem lasting_load (c : Compiled) (k : Chronicle) (h : k.Lasting) :
    k.now.ledger.Grows (Engine.chronicle.load c k).now.ledger ∧
      (Engine.chronicle.load c k).Lasting :=
  ⟨.refl _, h.goOn (.refl _) h.now⟩

theorem lasting_initial (sink : Sink) (clock : Nat → Float) : (initial sink clock).Lasting where
  sound := by
    intro a member
    obtain rfl := List.mem_singleton.1 member
    have none : ∀ {α : Type} (i : Nat), (#[] : Array α)[i]? = none := fun i => rfl
    refine ⟨fun f name value found => ?_, List.forall_mem_nil _, fun i x name found => ?_,
      fun i x found => ?_, ⟨rfl, rfl, fun c cls d found => ?_⟩, fun c d above declared => ?_⟩
    · simp only [Account.ledger, initial, Machine.initial, Store.pushFrame, Frames.lookup?_push]
        at found
      split at found
      · refine Bindings.put_in Bindings.empty_in (fun held member => ?_) name value found
        cases member
      · cases found
    · cases (none i).symm.trans found
    · cases (none i).symm.trans found
    · cases (none c).symm.trans found
    · cases (none c).symm.trans declared
  grown := List.pairwise_singleton _ _

/-- The accounts of a session, whatever its batches are. -/
theorem runAll_lasting (sink : Sink) (clock : Nat → Float) (batches : List (Nat × List UInt8)) :
    (runAll sink clock batches).2.state.Lasting :=
  (Engine.Session.runAll_upheld (H := Engine.chronicle) upkeep lasting_load
    ⟨initial sink clock, 0⟩ (lasting_initial sink clock) batches).2

/-- A session and its chronicle: the same results and the same machine, and all that is known of the
moments and of the accounts. -/
theorem runAll_told (sink : Sink) (clock : Nat → Float) (batches : List (Nat × List UInt8)) :
    let session := (Session.start sink clock).runAll batches
    let told := runAll sink clock batches
    (told.1 = session.1 ∧ told.2.state.now.machine = session.2.machine) ∧
      (∀ p ∈ told.2.state.moments, p.Placed) ∧ told.2.state.Lasting ∧
      ∃ texts, told.2.state.now.Attended texts := by
  obtain ⟨same, programs, table, between⟩ := runAll_between sink clock batches
  obtain ⟨w, ⟨-, machine, now, moments⟩, env, -⟩ := between.states
  exact ⟨⟨same.symm, Recorder.machine_eq machine env⟩, moments, runAll_lasting sink clock batches,
    _, now⟩

end Chronicle

end Treewalk
