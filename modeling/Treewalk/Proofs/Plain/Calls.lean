import Treewalk.Proofs.Plain.Variables

/-!
# Calls, blocks and classes on both sides

Where the machine makes a frame the plain interpreter extends an environment, with the same names;
all else that a call or a class needs is the same on both sides.
-/

namespace Treewalk

namespace Plain

open Correspondence Recorder

variable {texts : Texts} {w : Link} {c : Context} {f : Treewalk.Closure} {g : Closure}

theorem rel_callee? (value : Value) :
    (linked texts).Rel w c ((linked texts).Keeps c fun v => Correspondence.Callees v)
      (Platform.machine.callee? value) (gets (·.callee? value)) :=
  rel_gets fun _ _ heap _ => heap.callee? value

/-- Every parameter has its own cell, as it has its own place in the frame. -/
theorem rel_enterCall {outer : Context} (text : SameText f g)
    (place : w.Place outer f.frame g.env) (fits : f.decl.Fits texts.named texts.Knows outer)
    (arguments : List Value) (size : arguments.length = f.decl.params.length) :
    (linked texts).Rel w c
      ((linked texts).Keeps c fun v =>
        v.Enterable ((outer.enter (.function f.decl)).declareAll f.decl.params))
      (Run.newFrame f.frame (f.decl.bindArguments arguments))
      (some <$> extend (g.env.getD []) ((g.decl.params.map (·.lexeme)).zip arguments)) := by
  have scopes : (outer.enter (.function f.decl)).declareAll f.decl.params =
      ⟨.function f.decl, (f.decl.params.map (·.lexeme)).reverse ++ [], none⟩ :: outer :=
    declareAll_cons ..
  have keys : ((f.decl.params.map (·.lexeme)).zip arguments).map (·.1) =
      f.decl.params.map (·.lexeme) :=
    List.map_fst_zip (Nat.le_of_eq (by rw [List.length_map, size]))
  have known : ∀ o ∈ parameterOccurrences (outer.enter (.function f.decl)) f.decl.params,
      texts.Knows o := by
    intro o occurs
    apply fits.2
    rw [FunctionDecl.occurrences_eq]
    exact List.mem_append_left _ occurs
  have distinct := (parameters_distinct fun o occurs => (known o occurs).admissible).1
  have opened : (linked texts).Rel w c _ _ _ := rel_openScope
    ⟨.function f.decl, (f.decl.params.map (·.lexeme)).reverse, none⟩ place rfl
    ((f.decl.params.map (·.lexeme)).zip arguments) (by rw [keys]) (by rw [keys]; exact distinct)
    (by
      intro p member
      obtain ⟨param, listed, same⟩ := List.mem_map.1 (List.of_mem_zip member).1
      obtain ⟨c', occurs⟩ := mem_parameterOccurrences (c := outer.enter (.function f.decl)) listed
      have ordinary : Ordinary param.lexeme := (known _ occurs).lexed
      rw [same] at ordinary
      exact ordinary.proper p.2)
  rw [scopes, List.append_nil, text.decl, ← id_map (Run.newFrame _ _)]
  exact opened.map fun v c' a b _ same => same

theorem rel_enterBlock (body : List Stmt) :
    (linked texts).Rel w c
      ((linked texts).Keeps c fun v => v.Enterable (c.enter (.block body)))
      (do Run.newFrame (← Run.gets (·.env)) ∅) (gets fun s => some (s.env.getD [])) := by
  show (linked texts).Rel w c _ _ (do some <$> extend ((← gets (·.env)).getD []) [])
  refine (rel_gets (A := fun v f env => v.Place c f env) fun m s _ scope => scope.toPlace).bind ?_
  rintro v _ outer env later ⟨rfl, place⟩
  rw [← id_map (Run.newFrame _ _)]
  refine (rel_openScope ⟨.block body, [], none⟩ place rfl [] rfl .nil (List.forall_mem_nil _)).map
    fun v' c' a b _ same => same

/-- An initializer is bound to what `this` means in it. -/
theorem rel_receiver (callable : Callable texts w f g) (kind : f.isInitializer = true) :
    (linked texts).Rel w c ((linked texts).Gives c) (Platform.machine.receiver f)
      (Plain.platform.receiver g) := by
  obtain ⟨-, outer, place, -, bound⟩ := callable
  refine rel_gets (f := fun m => (m.store.frames.getAt? f.frame 0 thisName).getD .nil)
    (A := fun _ a b => a = b) fun m s heap _ => ?_
  obtain ⟨value, found, -, same⟩ := heap.declared place (bound kind)
    (place.chain.pending_ne fun ordinary => ordinary.1 rfl)
  rw [found, same]

theorem rel_oneDeeper {p : Run Value} {q : Action Value} (paren : Token)
    (h : (linked texts).Rel w c ((linked texts).Gives c) p q) :
    (linked texts).Rel w c ((linked texts).Gives c) (Run.oneDeeper paren p)
      (oneDeeper paren q) := by
  refine rel_of fun m s heap scope => ?_
  have limit : s.atDepthLimit = m.atDepthLimit := by
    unfold State.atDepthLimit Machine.atDepthLimit
    rw [heap.rest.depthLimit]
    cases m.depthLimit with
    | none => rfl
    | some limit => exact congrArg (fun depth => decide (limit ≤ depth)) heap.rest.depth
  unfold Run.oneDeeper oneDeeper
  rw [limit]
  split
  · exact ⟨⟨rfl, resolved_fault not_false⟩, w, c, Link.Le.refl w, rfl, heap, scope⟩
  · have deeper : Linked texts w { m with depth := m.depth + 1 } { s with depth := s.depth + 1 } :=
      heap.calm ⟨rfl, rfl, rfl, rfl, rfl, rfl⟩ ⟨rfl, rfl, rfl, rfl, rfl⟩
        { heap.rest with depth := congrArg (· + 1) heap.rest.depth }
    have back : ∀ {v m' s'}, Linked texts v m' s' →
        Linked texts v { m' with depth := m'.depth - 1 } { s' with depth := s'.depth - 1 } :=
      fun inner => inner.calm ⟨rfl, rfl, rfl, rfl, rfl, rfl⟩ ⟨rfl, rfl, rfl, rfl, rfl⟩
        { inner.rest with depth := congrArg (· - 1) inner.rest.depth }
    have ends := h _ _ deeper scope
    match p { m with depth := m.depth + 1 }, q { s with depth := s.depth + 1 }, ends with
    | .ok _ m', .ok _ s', ⟨v, c', later, size, post, heap', scope'⟩ =>
      exact ⟨v, c', later, size, post, back heap', scope'⟩
    | .error _ m', .error _ s', ⟨stops, v, c', later, size, heap', scope'⟩ =>
      exact ⟨stops, v, c', later, size, back heap', scope'⟩

/-! ### Instances, clock and output -/

theorem rel_readClock :
    (linked texts).Rel w c ((linked texts).Gives c) Run.readClock readClock := by
  refine rel_calm fun m s heap _ => ⟨?_, ⟨rfl, rfl, rfl, rfl, rfl, rfl⟩, ⟨rfl, rfl, rfl, rfl, rfl⟩,
    { heap.rest with ticks := congrArg (· + 1) heap.rest.ticks }⟩
  rw [heap.rest.clock, heap.rest.ticks]

theorem rel_newInstance (id : ClassId) :
    (linked texts).Rel w c ((linked texts).Gives c) (Run.newInstance id) (newInstance id) := by
  refine rel_calm fun m s heap _ => ⟨?_, ⟨rfl, rfl, rfl, rfl, rfl, rfl⟩, ⟨rfl, rfl, rfl, rfl, rfl⟩,
    { heap.rest with instances := congrArg (·.push ⟨id, ∅⟩) heap.rest.instances }⟩
  rw [heap.rest.instances]

theorem rel_setField (i : InstanceId) (name : String) (value : Value) :
    (linked texts).Rel w c ((linked texts).Gives c) (Run.setField i name value)
      (setField i name value) :=
  rel_calm fun _ _ heap _ => ⟨rfl, ⟨rfl, rfl, rfl, rfl, rfl, rfl⟩, ⟨rfl, rfl, rfl, rfl, rfl⟩,
    { heap.rest with
      instances := congrArg (Array.modify · i fun x => { x with fields := x.fields.put name value })
        heap.rest.instances }⟩

theorem rel_write (piece : String) :
    (linked texts).Rel w c ((linked texts).Gives c) (Run.write piece) (write piece) := by
  refine rel_calm fun m s heap _ => ?_
  unfold Run.write write
  rw [heap.rest.sink]
  cases m.sink.refusal m.sink.written piece with
  | none =>
    exact ⟨rfl, ⟨rfl, rfl, rfl, rfl, rfl, rfl⟩, ⟨rfl, rfl, rfl, rfl, rfl⟩,
      { heap.rest with sink := rfl }⟩
  | some r =>
    exact ⟨⟨rfl, nofun⟩, ⟨rfl, rfl, rfl, rfl, rfl, rfl⟩, ⟨rfl, rfl, rfl, rfl, rfl⟩,
      { heap.rest with sink := rfl }⟩

theorem rel_print (value : Value) :
    (linked texts).Rel w c ((linked texts).Gives c) (Run.print value)
      (print value) := by
  refine (rel_gets (A := fun _ a b => a = b) fun m s heap _ => (heap.text value).symm).bind ?_
  rintro v _ text _ later ⟨rfl, rfl⟩
  exact (rel_write text).andThen fun v' _ _ => rel_write "\n"

theorem rel_flush :
    (linked texts).Rel w c ((linked texts).Gives c) Run.flush flush := by
  refine rel_calm fun m s heap _ => ?_
  unfold Run.flush flush
  rw [heap.rest.sink]
  cases m.sink.flushRefusal with
  | none => exact ⟨rfl, .refl m, .refl s, heap.rest⟩
  | some message => exact ⟨⟨rfl, nofun⟩, .refl m, .refl s, heap.rest⟩

/-! ### Classes -/

theorem rel_readSuperclass {ref : Variable} (known : texts.Knows ⟨.use .read ref, c⟩) :
    (linked texts).Rel w c ((linked texts).Gives c) (Run.readSuperclass ref)
      (readSuperclass ref) := by
  unfold Run.readSuperclass readSuperclass
  refine (rel_read known).andThen fun v value _ => ?_
  cases value with
  | cls id => exact .pure ⟨rfl, rfl⟩
  | _ => exact rel_fault ref.name not_false

theorem rel_newClass {k : Treewalk.Class} {k' : Class} (same : SameClass texts w k k') :
    (linked texts).Rel w c ((linked texts).Gives c) (Run.newClass k) (newClass k') := by
  refine rel_of fun m s heap here => ?_
  refine ⟨w, c, Link.Le.refl w, rfl, ⟨rfl, ?_⟩, heap.pushClass same, here⟩
  rw [heap.classes.size]

variable {name : Token} {superclass : Option Variable} {methods : List FunctionDecl}

/-- The methods of a class see the same names on both sides. -/
theorem unbound_methods {frame : FrameId} {env : Env} {decl : FunctionDecl}
    (fits : (linked texts).Fits c (.classDecl name superclass methods))
    (place : w.Place ((c.declare name.lexeme).enterClass name superclass methods) frame env)
    (member : decl ∈ methods) :
    Unbound texts w ⟨decl, frame, decl.isInitializer⟩ ⟨decl, env, decl.isInitializer⟩ := by
  obtain ⟨tidy, known⟩ := fits
  rw [Stmt.Tidy] at tidy
  simp only [Stmt.occurrences, List.forall_mem_cons, List.forall_mem_append] at known
  exact ⟨⟨rfl, rfl⟩, _, place, FunctionDecl.tidy_of_mem member tidy.2,
    fun o occurs => known.2.2 o (FunctionDecl.mem_allOccurrences member occurs)⟩

/-- The class is made, and its name, which was bound to nothing so far, is bound to it. -/
theorem rel_makeClass {above : Option ClassId} {frame : FrameId} {env : Env}
    (fits : (linked texts).Fits c (.classDecl name superclass methods))
    (place : w.Place ((c.declare name.lexeme).enterClass name superclass methods) frame env)
    (bound : w.Binds name.lexeme) :
    (linked texts).Rel w (c.declare name.lexeme) ((linked texts).Gives (c.declare name.lexeme))
      (do Run.assignName name (← Run.newClass ⟨name.lexeme, above, Bindings.ofList (methods.map
        fun decl => (decl.name.lexeme, Treewalk.Closure.mk decl frame decl.isInitializer))⟩))
      (do define name.lexeme (← newClass ⟨name.lexeme, above, Bindings.ofList (methods.map
        fun decl => (decl.name.lexeme, Closure.mk decl env decl.isInitializer))⟩)) := by
  have ordinary : Ordinary name.lexeme :=
    (fresh_of_known (fits.2 ⟨.declare name, c⟩ (by rw [Stmt.occurrences]; exact .head _))).1
  refine (rel_newClass ⟨rfl, rfl, fun x => ?_⟩).andThen fun v cls later => ?_
  · exact Bindings.rel_get?_ofList methods (·.name.lexeme) _ _
      (fun decl member => unbound_methods fits place member) x
  exact rel_assignName cls ordinary (bound.mono ordinary later) (declares_declare c _)

theorem rel_declareClass (fits : (linked texts).Fits c (.classDecl name superclass methods)) :
    (linked texts).Rel w c ((linked texts).Gives (c.declare name.lexeme))
      (Run.declareClass name superclass methods) (declareClass name superclass methods) := by
  have known := fits.2
  simp only [Stmt.occurrences, List.forall_mem_cons, List.forall_mem_append] at known
  have ordinary := (fresh_of_known known.1).1
  show (linked texts).Rel w c _ (pure () >>= fun _ => Run.declareClass name superclass methods) _
  unfold Run.declareClass declareClass
  refine (rel_announce known.1).andThen fun u _ _ => ?_
  refine (rel_define .nil known.1).bind ?_
  rintro v _ _ _ later ⟨rfl, bound⟩
  cases superclass with
  | none =>
    simp only [pure_bind]
    refine (rel_gets (A := fun v f env => v.Place (c.declare name.lexeme) f env)
      fun m s _ scope => scope.toPlace).bind ?_
    rintro v' _ outer env later' ⟨rfl, place⟩
    exact rel_makeClass fits place (bound.mono ordinary later')
  | some ref =>
    simp only [pure_bind, bind_map_left]
    have use := known.2.1 ⟨.use .read ref, c.declare name.lexeme⟩ (.head _)
    refine (rel_readSuperclass use).andThen fun v' cls later' => ?_
    refine (rel_gets (A := fun v f env => v.Place (c.declare name.lexeme) f env)
      fun m s _ scope => scope.toPlace).bind ?_
    rintro u _ outer env grown ⟨rfl, place⟩
    refine (rel_openScope ⟨.super name ref methods, [superName], none⟩ place rfl
      [(superName, .cls cls)] rfl (List.pairwise_singleton _ _) ?_).bind ?_
    · rw [List.forall_mem_singleton]
      exact proper_super cls
    · rintro u' _ frame own grown' ⟨rfl, opened⟩
      have later'' := Link.Le.trans later' (Link.Le.trans grown grown')
      exact rel_makeClass fits opened.toPlace (bound.mono ordinary later'')

end Plain

end Treewalk
