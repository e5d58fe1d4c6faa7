import Treewalk.Proofs.Grammar.CompleteStmt
import Treewalk.Proofs.Grammar.Shape
import Treewalk.Proofs.Grammar.SoundStmt
import Treewalk.Proofs.Loops.Direct
import Treewalk.Proofs.Loops.ScopeFree
import Treewalk.Proofs.Plain.Faithful

/-!
# `for` statements mean what their trees do

The tree of a `for` statement has a block only where it has an initializer, and another one around
each round only where it has an increment. Neither the blocks that it has nor those that it lacks
make a difference: on the plain interpreter the tree does in every state, and at every number of
steps, what the `for` statement does that it stands for. So do whole sessions, whatever trees in
them are run as `for` statements.
-/

namespace Treewalk

open Grammar (withIncrement withInitializer)

/-- What a loop repeats: the body, and the increment behind it. -/
def ForLoop.round (loop : ForLoop) : Stmt := withIncrement loop.increment loop.body

/-- What is repeated while it holds; a condition that is absent is a true one. -/
def ForLoop.guard (loop : ForLoop) : Expr := loop.condition.getD (.constant .true)

theorem ForLoop.tree_eq (loop : ForLoop) :
    loop.tree = withInitializer loop.initializer (.loop loop.guard loop.round) :=
  Grammar.forLoop_eq _ _ _ _

theorem ForLoop.round_undeclared (loop : ForLoop) : loop.round.declared = [] := by
  unfold round
  cases loop.increment with
  | none => exact loop.undeclared
  | some increment => rfl

theorem ForLoop.round_regular (loop : ForLoop) : loop.round.Regular := by
  unfold round
  cases loop.increment with
  | none => exact loop.regular
  | some increment =>
    simp only [withIncrement, Stmt.Regular, Stmt.AllRegular, loop.regular, and_self]

/-- A statement behind the word `for` is the tree of the parts that it is written with. -/
theorem Grammar.Statement.exists_forLoop {choice : ElseRule} {i j : NodeId} {keyword : Token}
    {ts : List Token} {s : Stmt} {isOpen : Bool} (isFor : keyword.kind = .kwFor)
    (h : Statement choice i (keyword :: ts) s isOpen j) :
    ∃ (loop : ForLoop) (opening semicolon closing : Token) (us vs ws xs : List Token)
      (k l m : NodeId), loop.tree = s ∧
        ts = opening :: (us ++ (vs ++ semicolon :: (ws ++ closing :: xs))) ∧
        ForInitializer i us loop.initializer k ∧ OptionalExpr k vs loop.condition l ∧
        OptionalExpr l ws loop.increment m ∧ Statement choice m xs loop.body isOpen j := by
  cases h with
  | forLoop _ _ hinitializer hcondition _ hincrement _ hbody =>
    obtain ⟨-, regular, undeclared⟩ := hbody.shaped
    exact ⟨⟨_, _, _, _, undeclared, regular⟩, _, _, _, _, _, _, _, _, _, _, ForLoop.tree_eq _, rfl,
      hinitializer, hcondition, hincrement, hbody⟩
  | expression h =>
    obtain ⟨t, us, same, begins⟩ := h.first
    cases same
    rw [isFor] at begins
    cases begins
  | branch kind | branchElse kind | print kind | ret kind | loop kind | block kind =>
    rw [isFor] at kind
    cases kind

theorem Platform.inOrder_singleton {α : Type} (P : Platform) (step : α → P.Action Flow) (a : α) :
    P.inOrder step [a] = step a := by
  rw [inOrder]
  refine Eq.trans (bind_congr fun flow => ?_) (bind_pure (step a))
  cases flow <;> rfl

namespace Plain

variable (loop : ForLoop) (n : Nat)

theorem scopeFree_body (n : Nat) : ScopeFree (platform.execute n loop.body) :=
  (ScopeFreeWithin.all n).execute loop.body loop.undeclared loop.regular

theorem scopeFree_rounds (n : Nat) :
    ScopeFree (platform.repeatWhile n loop.guard loop.round) :=
  (ScopeFreeWithin.all n).repeatWhile _ _ loop.round_undeclared loop.round_regular

/-- Statements that declare nothing make no use of the block that they stand in. -/
theorem execute_block {body : List Stmt} {n : Nat}
    (free : ScopeFree (platform.inOrder (platform.execute n) body)) :
    platform.execute (n + 1) (.block body) = platform.inOrder (platform.execute n) body :=
  funext fun _ => free.within_sees rfl

theorem discard_bind {α β : Type} (p : Action α) (q : Action β) :
    (do discard p; q) = (do let _ ← p; q) :=
  bind_map_left (fun _ => ()) p fun _ => q

/-- What a loop repeats is the body, and behind a body that did not return the increment. -/
theorem execute_round : platform.execute n loop.round = (do
    match ← platform.execute (loop.bodySteps n) loop.body with
    | .normal => do
      advance? (platform.evaluate (loop.incrementSteps n)) loop.increment
      pure .normal
    | .returned value => pure (.returned value)) := by
  unfold ForLoop.round ForLoop.bodySteps ForLoop.incrementSteps
  cases loop.increment with
  | none =>
    refine (Eq.trans (bind_congr fun flow => ?_) (bind_pure _)).symm
    cases flow <;> rfl
  | some increment =>
    match n with
    | 0 => rfl
    | n + 1 =>
      have free : ScopeFree (platform.inOrder (platform.execute n)
          [loop.body, .expression increment]) := by
        refine .inOrder fun s member => ?_
        rcases List.mem_cons.1 member with rfl | member
        · exact scopeFree_body loop n
        · obtain rfl := List.mem_singleton.1 member
          exact (ScopeFreeWithin.all n).execute _ rfl trivial
      rw [withIncrement, execute_block free, Platform.inOrder, Platform.inOrder_singleton]
      refine bind_congr fun flow => ?_
      cases flow with
      | normal =>
        -- The increment is a statement of its own, which takes a step more.
        cases n with
        | zero => rfl
        | succ n =>
          exact (discard_bind (platform.evaluate n increment) (pure Flow.normal)).symm
      | returned value => rfl

/-- Where the body is shut off does not matter if it declares nothing. -/
theorem oneRound_of_free {body : Action Flow} (free : ScopeFree body) (condition : Action Bool)
    (increment : Action Unit) (others : Action Flow) :
    oneRound condition body increment others = (do
      if ← condition then
        match ← body with
        | .normal => do
          increment
          others
        | .returned value => pure (.returned value)
      else pure .normal) := by
  refine bind_congr fun goOn => ?_
  cases goOn with
  | false => rfl
  | true =>
    have shut : (do platform.within (← gets (·.env)) body) = body :=
      funext fun s => free.within_sees s.sees_self
    rw [if_pos rfl, if_pos rfl, ← bind_assoc]
    exact congrArg (· >>= _) shut

theorem round_then (others : Action Flow) : (do
    match ← platform.execute n loop.round with
    | .normal => others
    | .returned value => pure (.returned value)) = (do
    match ← platform.execute (loop.bodySteps n) loop.body with
    | .normal => do
      advance? (platform.evaluate (loop.incrementSteps n)) loop.increment
      others
    | .returned value => pure (.returned value)) := by
  rw [execute_round, bind_assoc]
  refine bind_congr fun flow => ?_
  cases flow with
  | normal =>
    dsimp only
    rw [bind_assoc]
    rfl
  | returned value => rfl

/-- The loop in the tree goes through the rounds. -/
theorem repeatWhile_round : platform.repeatWhile (n + 1) loop.guard loop.round =
    oneRound (holds? (platform.evaluate n) loop.condition)
      (platform.execute (loop.bodySteps n) loop.body)
      (advance? (platform.evaluate (loop.incrementSteps n)) loop.increment)
      (platform.repeatWhile n loop.guard loop.round) := by
  rw [oneRound_of_free (scopeFree_body loop _), Platform.repeatWhile]
  unfold ForLoop.guard
  cases loop.condition with
  | some condition =>
    rw [holds?, bind_map_left]
    refine bind_congr fun value => ?_
    split
    · exact round_then loop n _
    · rfl
  | none =>
    -- The tree has a constant here, which takes a step; so does the body.
    cases n with
    | zero =>
      rw [Nat.le_zero.1 (loop.bodySteps_le 0)]
      rfl
    | succ n => exact round_then loop (n + 1) _

/-- The tree is the initializer and the rounds in a scope of their own. -/
theorem execute_tree : platform.execute (n + 1) loop.tree =
    inLoopScope (initialize? (platform.execute n) loop.initializer)
      (platform.repeatWhile (loop.roundSteps n) loop.guard loop.round) := by
  rw [loop.tree_eq]
  unfold ForLoop.roundSteps
  cases loop.initializer with
  | none =>
    funext s
    have sees : s.Sees (some (s.env.getD [])) := rfl
    exact ((scopeFree_rounds loop n).within_sees sees).symm
  | some initializer =>
    rw [withInitializer, Platform.execute, Platform.inOrder, Platform.inOrder_singleton]
    refine bind_congr fun scope => congrArg _ (bind_congr fun flow => ?_)
    cases flow with
    | normal => cases n <;> rfl
    | returned value => rfl

namespace Direct

variable (reading : ForLoop.Reading)

/-- A run of `n` steps by the parts of `for` statements is that of their trees. -/
structure Agrees (n : Nat) : Prop where
  evaluate : evaluate reading n = platform.evaluate n
  callValue : callValue reading n = platform.callValue n
  invoke : invoke reading n = platform.invoke n
  declareVariable : declareVariable reading n = platform.declareVariable n
  execute : execute reading n = platform.execute n
  repeatWhile : repeatWhile reading n = platform.repeatWhile n
  runRounds : ∀ loop, runRounds reading n loop = platform.repeatWhile n loop.guard loop.round

variable {reading} {n : Nat}

theorem evaluate_succ (ih : Agrees reading n) (e : Expr) :
    evaluate reading (n + 1) e = platform.evaluate (n + 1) e := by
  cases e <;> simp only [Direct.evaluate, Platform.evaluate, ih.evaluate, ih.callValue] <;> rfl

theorem callValue_succ (ih : Agrees reading n) (callee : Value) (paren : Token)
    (arguments : List Value) :
    callValue reading (n + 1) callee paren arguments =
      platform.callValue (n + 1) callee paren arguments := by
  rw [Direct.callValue, Platform.callValue, ih.invoke]
  refine bind_congr fun found => ?_
  cases found with
  | none => rfl
  | some callee =>
    cases callee with
    | clock | function => rfl
    | cls c initializer => cases initializer <;> rfl

theorem invoke_succ (ih : Agrees reading n) (f : Closure) (arguments : List Value) :
    invoke reading (n + 1) f arguments = platform.invoke (n + 1) f arguments := by
  simp only [Direct.invoke, Platform.invoke, ih.execute] <;> rfl

theorem declareVariable_succ (ih : Agrees reading n) (decl : VarDecl) :
    declareVariable reading (n + 1) decl = platform.declareVariable (n + 1) decl := by
  simp only [Direct.declareVariable, Platform.declareVariable, ih.evaluate] <;> rfl

theorem repeatWhile_succ (ih : Agrees reading n) (condition : Expr) (body : Stmt) :
    repeatWhile reading (n + 1) condition body = platform.repeatWhile (n + 1) condition body := by
  simp only [Direct.repeatWhile, Platform.repeatWhile, ih.evaluate, ih.execute,
    ih.repeatWhile] <;> rfl

theorem runRounds_succ (ih : ∀ m ≤ n, Agrees reading m) (loop : ForLoop) :
    runRounds reading (n + 1) loop = platform.repeatWhile (n + 1) loop.guard loop.round := by
  rw [repeatWhile_round, Direct.runRounds, (ih n (Nat.le_refl n)).evaluate,
    (ih _ (loop.bodySteps_le n)).execute, (ih _ (loop.incrementSteps_le n)).evaluate,
    (ih n (Nat.le_refl n)).runRounds]

theorem execute_succ (ih : ∀ m ≤ n, Agrees reading m) (s : Stmt) :
    execute reading (n + 1) s = platform.execute (n + 1) s := by
  have here := ih n (Nat.le_refl n)
  cases read : reading.loop? s with
  | some loop =>
    obtain rfl := reading.tree read
    rw [execute_tree, Direct.execute.eq_def]
    simp only [read, here.execute, (ih _ (loop.roundSteps_le n)).runRounds]
  | none =>
    cases s <;> rw [Direct.execute.eq_def] <;> simp only [read, Platform.execute, here.evaluate,
      here.execute, here.declareVariable, here.repeatWhile] <;> rfl

theorem agrees (n : Nat) : Agrees reading n := by
  induction n using Nat.strongRecOn with
  | ind n ih =>
    match n with
    | 0 =>
      refine ⟨?_, ?_, ?_, ?_, ?_, ?_, fun loop => ?_⟩ <;> funext <;> simp only [Direct.evaluate, Direct.callValue, Direct.invoke,
        Direct.declareVariable, Direct.execute, Direct.repeatWhile, Direct.runRounds] <;> rfl
    | n + 1 =>
      have ih : ∀ m ≤ n, Agrees reading m := fun m le => ih m (Nat.lt_succ_of_le le)
      have here := ih n (Nat.le_refl n)
      refine ⟨funext (evaluate_succ here), ?_, ?_, funext (declareVariable_succ here),
        funext (execute_succ ih), ?_, runRounds_succ ih⟩
      · funext callee paren arguments
        exact callValue_succ here callee paren arguments
      · funext f arguments
        exact invoke_succ here f arguments
      · funext condition body
        exact repeatWhile_succ here condition body

theorem interpret_eq (steps : Nat) (program : List Stmt) :
    interpret reading steps program = platform.interpret steps program := by
  funext s
  unfold interpret Platform.interpret executeAll Platform.executeAll
  rw [(agrees steps).execute]
  match program.forM (fun s => discard (platform.execute steps s)) s with
  | .ok _ _ | .error .exhausted _ | .error (.fault _) _ | .error (.output _) _ => rfl

theorem run_eq (steps : Nat) (s : Engine.plain.Session) (source : List UInt8) :
    run reading steps s source = s.run steps source := by
  unfold run Engine.Session.run
  rcases compile source s.nextId with ⟨_ | c, next⟩
  · rfl
  · dsimp only
    rw [interpret_eq]
    cases platform.interpret steps c.program s.state <;> rfl

theorem runFrom_eq (s : Engine.plain.Session) (batches : List (Nat × List UInt8)) :
    runFrom reading s batches = s.runAll batches := by
  induction batches generalizing s with
  | nil => rfl
  | cons batch rest ih => rw [runFrom, Engine.Session.runAll, run_eq, ih]

end Direct

/-- Sessions are in step with those in which `for` statements are run by their parts. -/
theorem linked_direct (reading : ForLoop.Reading) (sink : Sink) (clock : Nat → Float)
    (batches : List (Nat × List UInt8)) :
    let session := (Session.start sink clock).runAll batches
    let direct := Direct.runAll reading sink clock batches
    session.1 = direct.1 ∧ ∃ programs table w, Linked (.of programs table) w
      session.2.machine direct.2.state := by
  have after := (between_start sink clock).runAll batches
  rw [Session.runAll_onEngine, ← Direct.runFrom_eq] at after
  obtain ⟨same, -, programs, table, -, -, w, linked, -⟩ := after
  exact ⟨same, programs, table, w, linked⟩

end Plain

/-- A `for` statement keeps its meaning as a tree. However the `for` statements of a session are
picked out, this one among them, the session gives the same results and the same output as if they
were run by their parts: the initializer once, in a scope that the whole loop shares, and then
rounds of condition, body and increment in it. And in every state the tree of the statement does
just that, with the same value or error and the same state at the end. -/
theorem forLoop_exact (loop : ForLoop) (others : ForLoop.Reading) :
    let reading := others.taking loop
    reading.loop? (Parser.forLoop loop.initializer loop.condition loop.increment loop.body) =
        some loop ∧
      (∀ steps, Plain.platform.execute steps loop.tree =
        Plain.Direct.execute reading steps loop.tree) ∧
      ∀ sink clock batches,
        ((Session.start sink clock).runAll batches).1 =
            (Plain.Direct.runAll reading sink clock batches).1 ∧
          ((Session.start sink clock).runAll batches).2.machine.sink =
            (Plain.Direct.runAll reading sink clock batches).2.state.sink := by
  intro reading
  refine ⟨others.taking_tree loop, fun steps => ?_, fun sink clock batches => ?_⟩
  · rw [(Plain.Direct.agrees steps).execute]
  · obtain ⟨same, programs, table, w, linked⟩ :=
      Plain.linked_direct reading sink clock batches
    exact ⟨same, linked.rest.sink.symm⟩

end Treewalk
