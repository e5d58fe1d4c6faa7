import Mathlib
import Treewalk.Proofs.Plain.Faithful
import Treewalk.Proofs.Plain.Image
import Treewalk.Proofs.Run.Carrier
import Treewalk.Proofs.Scope.Detour

/-!
# The name of a local variable is not seen

A program in which a variable of a scope has another name does in every session what the program
did. On the plain interpreter both are images of one program, in which the variable has a name that
nothing in the session has, so that the session itself is the same under both changes.
-/

namespace Treewalk

/-- How a run ends, and what was printed by then. -/
def ending {σ α : Type} (sink : σ → Sink) : EStateM.Result Stop σ α → Except Stop α × Sink
  | .ok a s => (.ok a, sink s)
  | .error e s => (.error e, sink s)

namespace Plain

open Correspondence

variable {z v : String} {s : State}

/-! ### States in which a name is not used -/

/-- The names that a function sees or mentions. -/
def Closure.names (g : Closure) : List String :=
  (g.env.getD []).map (·.1) ++ (g.decl.occurrences []).map (·.mention.token.lexeme)

/-- The names that functions and methods see or mention. -/
def State.names (s : State) : List String :=
  s.functions.toList.flatMap Closure.names ++
    s.classes.toList.flatMap fun k => k.methods.entries.flatMap fun p => p.2.names

theorem FunctionDecl.relabel_unused {decl : FunctionDecl} {c : Context}
    (unused : ∀ o ∈ decl.occurrences c, o.mention.token.lexeme ≠ z) :
    decl.relabel (.renaming z v) = decl := by
  have same : (Relabel.renaming z v).Same .identity (decl.occurrences c) :=
    ⟨rfl, rfl, fun o member => if_neg (unused o member)⟩
  rw [FunctionDecl.relabel_congr c decl same, FunctionDecl.relabel_identity]

theorem renameEnv_unused {env : Env} (unused : ∀ name ∈ (env.getD []).map (·.1), name ≠ z) :
    renameEnv (Relabel.renaming z v).name env = env := by
  cases env with
  | none => rfl
  | some names =>
    refine congrArg some ((List.map_congr_left fun p member => ?_).trans (List.map_id' names))
    have other : p.1 ≠ z := unused p.1 (List.mem_map_of_mem member)
    exact Prod.ext (if_neg other) rfl

theorem Closure.relabel_unused {g : Closure} (unused : z ∉ g.names) :
    g.relabel (.renaming z v) = g := by
  have all : ∀ name ∈ g.names, name ≠ z := fun name member same => unused (same ▸ member)
  obtain ⟨around, mentioned⟩ := List.forall_mem_append.1 all
  have decl : g.decl.relabel (.renaming z v) = g.decl :=
    FunctionDecl.relabel_unused (c := []) fun o member =>
      mentioned _ (List.mem_map_of_mem member)
  rw [Closure.relabel, decl, renameEnv_unused around]

theorem Class.relabel_unused {k : Class}
    (unused : ∀ p ∈ k.methods.entries, z ∉ p.2.names) : k.relabel (.renaming z v) = k := by
  have entries : k.methods.entries.map (fun p => (p.1, p.2.relabel (.renaming z v))) =
      k.methods.entries := by
    refine (List.map_congr_left fun p member => ?_).trans (List.map_id' _)
    rw [Closure.relabel_unused (unused p member)]
  show Class.mk k.name k.superclass ⟨k.methods.entries.map _⟩ = k
  rw [entries]

/-- A state in which nothing has the name stays as it is when the name is changed. -/
theorem State.relabel_unused (top : s.env = none) (unused : z ∉ s.names) :
    s.relabel (.renaming z v) = s := by
  simp only [State.names, List.mem_append, List.mem_flatMap, not_or, not_exists, not_and,
    Array.mem_toList_iff] at unused
  obtain ⟨functions, classes⟩ := unused
  have sameFunctions : s.functions.map (Closure.relabel (.renaming z v)) = s.functions :=
    (Array.map_congr_left fun g member => Closure.relabel_unused (functions g member)).trans
      (Array.map_id' _)
  have sameClasses : s.classes.map (Class.relabel (.renaming z v)) = s.classes :=
    (Array.map_congr_left fun k member => Class.relabel_unused (classes k member)).trans
      (Array.map_id' _)
  rw [State.relabel, sameFunctions, sameClasses, top, renameEnv, Option.map_none, ← top]

variable {programs : List (List Stmt)} {table : Distances} {w : Link} {m : Machine}

theorem Sees.of_place {c : Context} {f : FrameId} {env : Env} (place : w.Place c f env) :
    Sees c env := ⟨place.lists.keys, place.top⟩

/-- A function of earlier programs may be called while a name that they do not use is changed. -/
theorem fits_unused (unused : ∀ program ∈ programs, Unused z (occurrences program)) {c : Context}
    {decl : FunctionDecl}
    (fits : decl.Fits (Texts.of programs table).named (Texts.of programs table).Knows c) :
    decl.Fits (Relabel.renaming z v).Named (Allowed (.renaming z v)) c := by
  obtain ⟨tidy, known⟩ := fits
  have apart : ∀ o ∈ decl.occurrences c,
      ∀ name ∈ o.mention.token.lexeme :: o.context.names, name ≠ z := by
    intro o occurs
    obtain ⟨program, member, stands⟩ := (known o occurs).member
    exact unused program member o stands
  constructor
  · refine FunctionDecl.tidy_of_regular c decl (FunctionDecl.regular_of_tidy decl tidy) ?_
    rintro o occurs _ ⟨token, same, rfl⟩
    have other := apart o occurs _ (.head _)
    rw [same] at other
    exact if_neg other
  · intro o occurs
    exact ⟨(known o occurs).admissible, (known o occurs).lexed, .of_unused (apart o occurs)⟩

/-- If the functions of earlier programs may be called under other names, so may all functions of
the state. -/
theorem Good.of_linked {r : Relabel} (linked : Linked (.of programs table) w m s)
    (fits : ∀ {c : Context} {decl : FunctionDecl},
      decl.Fits (Texts.of programs table).named (Texts.of programs table).Knows c →
        decl.Fits r.Named (Allowed r) c) : Good r s := by
  constructor
  · intro g member
    obtain ⟨f, text, c, place, known, -⟩ := linked.functions.right member
    rw [← text.decl] at known
    exact ⟨c, .of_place place, fits known⟩
  · intro k member x g own
    obtain ⟨k', same⟩ := linked.classes.right member
    obtain ⟨f, -, text, c, place, known⟩ := of_rel_right (same.methods x) own
    rw [← text.decl] at known
    exact ⟨c, .of_place place, fits known⟩

theorem good_of_linked (linked : Linked (.of programs table) w m s)
    (unused : ∀ program ∈ programs, Unused z (occurrences program)) :
    Good (.renaming z v) s := .of_linked linked (fits_unused unused)

/-- There is a name that none of these is, and that is no keyword that the interpreter looks for. -/
theorem exists_unused (names : List String) : ∃ z, z ∉ names ∧ Ordinary z := by
  obtain ⟨z, new⟩ := Infinite.exists_notMem_finset (thisName :: superName :: names).toFinset
  simp only [List.mem_toFinset, List.mem_cons, not_or] at new
  exact ⟨z, new.2.2, new.1, new.2.1⟩

/-! ### Runs end alike -/

/-- The machine ends as the plain interpreter does. -/
theorem ending_machine {first next : NodeId} {c : Compiled}
    (linked : Linked (.of programs table) w m s) (here : w.Current [] m.env s.env)
    (loaded : Loaded first programs table)
    (accepted : Accepted first c next) (steps : Nat) :
    ending Machine.sink (interpret steps c.distances c.program m) =
      ending State.sink (Plain.platform.interpret steps c.program s) := by
  have more : Extends (.of programs table)
      (.of (c.program :: programs) (table.addAll c.distances)) :=
    ⟨rfl, fun _ => loaded.knows accepted⟩
  have fits : (Plain.linked (.of (c.program :: programs) (table.addAll c.distances))).AllFit []
      c.program :=
    ⟨Stmt.allTidy_of_regular [] _ accepted.regular fun _ _ _ _ => trivial,
      fun o member => loaded.knows_new accepted member⟩
  have ends := (simulation _).rel_interpret steps c.program fits _ _
    (linked.load more c.distances rfl) here
  rw [← Stmt.relabelAll_eq_map, Stmt.relabelAll_identity] at ends
  rw [Platform.interpret_machine]
  match Platform.machine.interpret steps c.program (m.addDistances c.distances),
    Plain.platform.interpret steps c.program s, ends with
  | .ok _ _, .ok _ _, ⟨_, _, _, _, _, linked', _⟩ =>
    exact congrArg (Prod.mk _) linked'.rest.sink.symm
  | .error _ _, .error _ _, ⟨⟨rfl, _⟩, _, _, _, _, linked', _⟩ =>
    exact congrArg (Prod.mk _) linked'.rest.sink.symm

/-- A run under other names ends as the run does, in the state under other names. -/
theorem interpret_image {r : Relabel} (apart : Apart r) (lines : r.line = fun line => line)
    (good : Good r s) (top : s.env = none) {program : List Stmt}
    (fits : (image r).AllFit [] program) (steps : Nat) :
    Plain.platform.interpret steps (Stmt.relabelAll r program) (s.relabel r) =
      endingWith (State.relabel r) (Plain.platform.interpret steps program s) := by
  have sees : Sees [] s.env := by
    rw [top]
    exact ⟨rfl, Iff.intro (fun _ => rfl) fun _ => rfl⟩
  have ends := (simulation_image apart).rel_interpret (w := ()) steps program fits s (s.relabel r)
    ⟨good, rfl⟩ ⟨sees, rfl⟩
  have whole : ∀ {s' t' : State}, t' = { s'.relabel r with env := t'.env } →
      t'.env = renameEnv r.name s'.env → t' = s'.relabel r := by
    intro s' t' same env
    rw [same, env]
    rfl
  rw [← Stmt.relabelAll_eq_map] at ends
  match Plain.platform.interpret steps program s,
    Plain.platform.interpret steps (Stmt.relabelAll r program) (s.relabel r), ends with
  | .ok _ s', .ok _ t', ⟨_, _, _, _, _, ⟨_, same⟩, _, env⟩ =>
    rw [whole same env]
    rfl
  | .error e s', .error _ t', ⟨stops, _, _, _, _, ⟨_, same⟩, _, env⟩ =>
    obtain rfl : _ = e.relabel r := stops
    have kept : e.relabel r = e := by
      cases e with
      | fault => rw [Stop.relabel, lines]
      | output | exhausted => rfl
    rw [whole same env, kept]
    rfl

theorem ending_image {r : Relabel} (apart : Apart r) (lines : r.line = fun line => line)
    (good : Good r s) (top : s.env = none) {program : List Stmt}
    (fits : (image r).AllFit [] program) (steps : Nat) :
    ending State.sink (Plain.platform.interpret steps program s) =
      ending State.sink
        (Plain.platform.interpret steps (Stmt.relabelAll r program) (s.relabel r)) := by
  rw [interpret_image apart lines good top fits steps]
  cases Plain.platform.interpret steps program s <;> rfl

theorem apart_renaming (old : Ordinary z) (new : Ordinary v) : Apart (.renaming z v) where
  fixed {name} special := if_neg fun same : name = z => special (same ▸ old)
  only special same := by
    simp only [Relabel.renaming] at same
    split at same
    · exact absurd (same ▸ new) special
    · exact same

variable {x y : String} {c : Compiled} {program' : List Stmt} {first next : NodeId}

/-- A program by way of a name that nothing in the session has ends as it does itself. -/
theorem ending_through (h : Renames x y c program') (accepted : Accepted first c next)
    (linked : Linked (.of programs table) w m s) (top : s.env = none) (ordinary : Ordinary z)
    (state : z ∉ s.names) (new : Unused z (occurrences program'))
    (old : Unused z (occurrences c.program))
    (unused : ∀ program ∈ programs, Unused z (occurrences program)) (target : v = x ∨ v = y)
    (steps : Nat) :
    ending State.sink (Plain.platform.interpret steps (Renames.through y z program') s) =
      ending State.sink
        (Plain.platform.interpret steps (Stmt.relabelAll (.renaming y v) program') s) := by
  have variableName : Ordinary v := by
    rcases target with rfl | rfl
    · exact h.ordinary_old accepted
    · exact h.ordinary
  have fits : (image (.renaming z v)).AllFit [] (Renames.through y z program') :=
    ⟨h.tidy_through accepted old, fun o member =>
      ⟨h.admissible_through accepted new ordinary old member,
        h.lexed_through accepted ordinary member, h.keeps_through accepted new member target⟩⟩
  have ends := ending_image (apart_renaming ordinary variableName) rfl
    (good_of_linked linked unused) top fits steps
  rw [State.relabel_unused top state, Renames.relabelAll_through new] at ends
  exact ends

/-- A program with the one name and the program with the other end alike. -/
theorem ending_renamed (h : Renames x y c program') (accepted : Accepted first c next)
    (linked : Linked (.of programs table) w m s) (top : s.env = none) (steps : Nat) :
    ending State.sink (Plain.platform.interpret steps program' s) =
      ending State.sink (Plain.platform.interpret steps c.program s) := by
  obtain ⟨z, state, new, old, unused, ordinary⟩ : ∃ z, z ∉ s.names ∧
      Unused z (occurrences program') ∧ Unused z (occurrences c.program) ∧
      (∀ program ∈ programs, Unused z (occurrences program)) ∧ Ordinary z := by
    obtain ⟨z, new, ordinary⟩ := exists_unused
      (s.names ++ (program' :: c.program :: programs).flatMap fun program =>
        (occurrences program).flatMap fun o => o.mention.token.lexeme :: o.context.names)
    rw [List.mem_append, not_or] at new
    have unused : ∀ program ∈ program' :: c.program :: programs,
        Unused z (occurrences program) := by
      intro program member o occurs name listed same
      rw [same] at listed
      exact new.2 (List.mem_flatMap.2 ⟨program, member, List.mem_flatMap.2 ⟨o, occurs, listed⟩⟩)
    rw [List.forall_mem_cons, List.forall_mem_cons] at unused
    exact ⟨z, new.1, unused.1, unused.2.1, unused.2.2, ordinary⟩
  have there := ending_through h accepted linked top ordinary state new old unused (.inr rfl) steps
  have back := ending_through h accepted linked top ordinary state new old unused (.inl rfl) steps
  rw [Renames.relabelAll_same] at there
  rw [h.back] at back
  exact there.symm.trans back

end Plain

/-- Runs that end alike give the same result of a batch, with the same output. -/
theorem Session.perform_congr {α : Type} {s : Session} {run run' : Run α}
    (h : ending Machine.sink (run s.machine) = ending Machine.sink (run' s.machine)) :
    (s.perform run).1 = (s.perform run').1 ∧
      (s.perform run).2.machine.sink = (s.perform run').2.machine.sink := by
  unfold Session.perform
  match run s.machine, run' s.machine, h with
  | .ok _ _, .ok _ _, same =>
    obtain ⟨result, sink⟩ := Prod.mk.inj same
    cases result
    exact ⟨rfl, sink⟩
  | .error _ _, .error _ _, same =>
    obtain ⟨result, sink⟩ := Prod.mk.inj same
    cases result
    exact ⟨rfl, sink⟩

/-- In every session a program that is accepted may be exchanged for one in which a variable of a
scope has another name: it is accepted with the same distances, and whatever number of steps it is
given, it ends in the same way and has printed the same by then. -/
theorem local_names_unseen (sink : Sink) (clock : Nat → Float) (batches : List (Nat × List UInt8))
    (source : List UInt8) {x y : String} {c : Compiled} {next : NodeId} {program' : List Stmt}
    (compiled : compile source ((Session.start sink clock).runAll batches).2.nextId = (.ok c, next))
    (renames : Renames x y c program') :
    resolve program' = .ok c.distances ∧ ∀ steps,
      let session := ((Session.start sink clock).runAll batches).2
      let run := session.run steps source
      let run' := { session with nextId := next }.perform (interpret steps c.distances program')
      run'.1 = run.1 ∧ run'.2.machine.sink = run.2.machine.sink := by
  have accepted := accepted_of_compile compiled
  have accepted' := renames.accepted_renamed accepted
  refine ⟨accepted'.resolved, fun steps => ?_⟩
  obtain ⟨programs, table, w, s, loaded, linked, here⟩ := Plain.linked_runAll sink clock batches
  generalize ((Session.start sink clock).runAll batches).2 = session
    at compiled accepted accepted' loaded linked here ⊢
  have ran : session.run steps source =
      { session with nextId := next }.perform (interpret steps c.distances c.program) := by
    rw [Session.run, compiled]
  have top := here.top.2 rfl
  simp only [ran]
  refine Session.perform_congr ?_
  calc ending Machine.sink (interpret steps c.distances program' session.machine)
    _ = ending Plain.State.sink _ := Plain.ending_machine linked here loaded accepted' steps
    _ = ending Plain.State.sink _ := Plain.ending_renamed renames accepted linked top steps
    _ = ending Machine.sink (interpret steps c.distances c.program session.machine) :=
      (Plain.ending_machine linked here loaded accepted steps).symm

/-- A variable in a block that hides a global one. -/
def hidingSource : List UInt8 :=
  "var x;\x7bvar x=true;print x;\x7dprint x;".toUTF8.data.toList

/-- Its program, with a name for the variable in the block. -/
def hidingProgram (name : String) : List Stmt :=
  let x : Token := ⟨.identifier, "x", none, 1⟩
  let inner : Token := ⟨.identifier, name, none, 1⟩
  [.var ⟨x, none⟩,
    .block [.var ⟨inner, some (.constant .true)⟩, .print (.read ⟨0, inner⟩)],
    .print (.read ⟨1, x⟩)]

theorem occurrences_hidingProgram (name : String) : ∃ scope around, scope.names = [name] ∧
    occurrences (hidingProgram name) =
      [⟨.declare ⟨.identifier, "x", none, 1⟩, []⟩,
        ⟨.declare ⟨.identifier, name, none, 1⟩, around⟩,
        ⟨.use .read ⟨0, ⟨.identifier, name, none, 1⟩⟩, [scope]⟩,
        ⟨.use .read ⟨1, ⟨.identifier, "x", none, 1⟩⟩, []⟩] :=
  ⟨_, _, rfl, rfl⟩

theorem renames_hiding :
    Renames "x" "y" ⟨hidingProgram "x", [(0, 0)]⟩ (hidingProgram "y") where
  back := by rfl
  identifier := by simp [TokenKind.keywords]
  unused := by
    obtain ⟨scope, around, -, same⟩ := occurrences_hidingProgram "x"
    rw [same]
    simp [Mention.token]
  declaration := by
    refine ⟨[_], ⟨.identifier, "y", none, 1⟩, _, _, [_, _], rfl, rfl, ?_⟩
    simp [Occurrence.Declares]
  uses := by
    obtain ⟨_, _, -, same⟩ := occurrences_hidingProgram "x"
    obtain ⟨scope, around, names, same'⟩ := occurrences_hidingProgram "y"
    intro p member role ref mention _
    rw [same, same'] at member
    simp only [List.zip_cons_cons, List.zip_nil_right, List.mem_cons, List.not_mem_nil, or_false]
      at member
    rcases member with rfl | rfl | rfl | rfl
    · cases mention
    · cases mention
    · cases mention
      have found : (Distances.addAll ∅ [(0, 0)]).get? 0 = some 0 := by
        rw [Distances.addAll, List.foldl_cons, List.foldl_nil, Distances.get?_insert, if_pos rfl]
      refine iff_of_true rfl ⟨rfl, 0, scope, found, rfl, .inl ?_⟩
      rw [names]
      exact .head _
    · cases mention
      simp [Mention.token]

/-- The variable in the block is renamed, the global one is not. -/
theorem local_names_unseen_hiding :
    compile hidingSource ((Session.start .unlimited fun _ => 0).runAll []).2.nextId =
      (.ok ⟨hidingProgram "x", [(0, 0)]⟩, 2) ∧
    Renames "x" "y" ⟨hidingProgram "x", [(0, 0)]⟩ (hidingProgram "y") ∧
    resolve (hidingProgram "y") = .ok [(0, 0)] ∧ ∀ steps,
      let session := ((Session.start .unlimited fun _ => 0).runAll []).2
      let run := session.run steps hidingSource
      let run' := { session with nextId := 2 }.perform
        (interpret steps [(0, 0)] (hidingProgram "y"))
      run'.1 = run.1 ∧ run'.2.machine.sink = run.2.machine.sink := by
  have compiled : compile hidingSource ((Session.start .unlimited fun _ => 0).runAll []).2.nextId =
      (.ok ⟨hidingProgram "x", [(0, 0)]⟩, 2) := by
    show compile hidingSource 0 = _
    cbv
  exact ⟨compiled, renames_hiding,
    local_names_unseen .unlimited (fun _ => 0) [] hidingSource compiled renames_hiding⟩

end Treewalk
