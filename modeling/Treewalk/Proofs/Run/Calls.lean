import Treewalk.Proofs.Run.Carrier

/-!
# The limit of calls in progress

A `Watch` is a machine with the calls that are in progress beside it, and with all calls that have
been begun so far, each with the machine as it found it. The run of a program on it is the run
without a limit, watched: it goes on however deep the calls are.

The run with a limit does the same as long as no call is too deep. At the first one that is, it
stops: on the machine that the watched run had there, and with an error on the line of that call.
-/

namespace Treewalk

open Run

/-- A call that has been begun: what is called can be called, with as many arguments. -/
structure Call where
  /-- The parenthesis that closes it. -/
  paren : Token
  /-- The calls in progress around it, innermost first. -/
  around : List Token
  /-- The machine as the call finds it. -/
  machine : Machine

/-- The calls in progress with this one. -/
def Call.inProgress (call : Call) : Nat := call.around.length + 1

/-- A machine with the calls in progress, innermost first, and all calls so far, in order. -/
structure Watch where
  machine : Machine
  pending : List Token
  calls : List Call

namespace Watch

def start (m : Machine) : Watch := ⟨m, [], []⟩

/-- Begins a call. -/
def enter (w : Watch) (paren : Token) : Watch where
  machine := w.machine
  pending := paren :: w.pending
  calls := w.calls ++ [⟨paren, w.pending, w.machine⟩]

/-- Ends a call that was begun on the first of two machines. -/
def leave (w w' : Watch) : Watch := { w' with pending := w.pending }

/-- The machine alone, with a limit or without. -/
def erase (limit : Option Nat) (w : Watch) : Machine := w.machine.atDepth w.pending.length limit

end Watch

@[reducible]
def Carrier.watch : Carrier where
  State := Watch
  env w := w.machine.env
  setEnv f w := { w with machine := { w.machine with env := f } }
  lift p w := endingWith (fun machine => { w with machine }) (p w.machine)
  oneDeeper paren p w := endingWith w.leave (p (w.enter paren))
  write piece w := endingWith (fun machine => { w with machine }) (Run.write piece w.machine)
  lift_pure _ := rfl
  lift_throw _ := rfl

/-- The call would be one too many. -/
def Call.exceeds (limit : Nat) (call : Call) : Bool := limit < call.inProgress

theorem Call.not_exceeds {limit : Nat} {call : Call} :
    ¬ call.exceeds limit = true ↔ call.around.length < limit := by
  rw [Call.exceeds, decide_eq_true_iff, Call.inProgress]
  omega

/-- The end of a run at a call that is one too many, as seen from where the run began. -/
def overflowAt {α : Type} (limit : Nat) (call : Call) (w : Watch) :
    EStateM.Result Stop Machine α :=
  .error (.fault ⟨.stackOverflow, call.paren.line⟩)
    ({ call.machine with env := w.machine.env }.atDepth w.pending.length (some limit))

/-- What the end of a watched run says of the run `q` on the machine alone. -/
structure Tracks {α : Type} (limit : Nat) (w : Watch) (begun : List Call)
    (ended : EStateM.Result Stop Watch α) (q : Run α) : Prop where
  calls : (endState ended).calls = w.calls ++ begun
  pending : (endState ended).pending = w.pending
  env : (endState ended).machine.env = w.machine.env
  /-- Without a limit it is the same run. -/
  free : q (w.erase none) = endingWith (·.erase none) ended
  /-- With a limit it is, too, if no call is too deep. -/
  within : w.pending.length ≤ limit → begun.find? (·.exceeds limit) = none →
    q (w.erase (some limit)) = endingWith (·.erase (some limit)) ended
  /-- The first call that is too deep ends the run with a limit. -/
  beyond : w.pending.length ≤ limit → ∀ call, begun.find? (·.exceeds limit) = some call →
    call.inProgress = limit + 1 ∧ q (w.erase (some limit)) = overflowAt limit call w

/-- The runs are in step, on the watch and on the machine alone. -/
def Tracked {α : Type} (limit : Nat) (p : EStateM Stop Watch α) (q : Run α) : Prop :=
  ∀ w, ∃ begun, Tracks limit w begun (p w) q

namespace Tracked

variable {limit : Nat} {α β : Type}

/-- What does not look at the depth begins no call. -/
theorem lift {p : Run α} (level : DepthFree p) (keeps : Keeps p) :
    Tracked limit (Carrier.watch.lift p) p := by
  intro w
  have runs : ∀ depth, p (w.erase depth) =
      endingWith (·.erase depth) (Carrier.watch.lift p w) := by
    intro depth
    rw [Watch.erase, level, endingWith_endingWith]
    rfl
  refine ⟨[], ?_, ?_, ?_, runs none, fun _ _ => runs _, fun _ _ found => nomatch found⟩
  · rw [endState_endingWith, List.append_nil]
  · rw [endState_endingWith]
  · rw [endState_endingWith]
    have kept := keeps w.machine
    cases ran : p w.machine with
    | ok a m | error e m =>
      rw [ran] at kept
      exact kept.env

theorem bind {p : EStateM Stop Watch α} {q : Run α} {f : α → EStateM Stop Watch β}
    {g : α → Run β} (h : Tracked limit p q) (next : ∀ a, Tracked limit (f a) (g a)) :
    Tracked limit (p >>= f) (q >>= g) := by
  intro w
  obtain ⟨begun, first⟩ := h w
  cases ran : p w with
  | error e w' =>
    rw [ran] at first
    refine ⟨begun, ?_⟩
    rw [bind_of_error ran]
    refine ⟨first.calls, first.pending, first.env, bind_of_error first.free, fun size none => ?_,
      fun size call found => ?_⟩
    · exact bind_of_error (first.within size none)
    · obtain ⟨exact, stopped⟩ := first.beyond size call found
      exact ⟨exact, bind_of_error stopped⟩
  | ok a w' =>
    rw [ran] at first
    obtain ⟨begun', second⟩ := next a w'
    have pending : w'.pending = w.pending := first.pending
    have env : w'.machine.env = w.machine.env := first.env
    refine ⟨begun ++ begun', ?_⟩
    rw [bind_of_ok ran]
    refine ⟨?_, second.pending.trans pending, second.env.trans env, ?_, fun size none => ?_,
      fun size call found => ?_⟩
    · rw [second.calls, show w'.calls = _ from first.calls, List.append_assoc]
    · rw [bind_of_ok first.free, second.free]
    · rw [List.find?_append, Option.or_eq_none_iff] at none
      rw [bind_of_ok (first.within size none.1)]
      exact second.within (pending ▸ size) none.2
    · rw [List.find?_append] at found
      -- The first call that is too deep may be one of the first run or of the second.
      cases early : begun.find? (·.exceeds limit) with
      | some call' =>
        rw [early, Option.some_or] at found
        cases found
        obtain ⟨exact, stopped⟩ := first.beyond size call early
        exact ⟨exact, bind_of_error stopped⟩
      | none =>
        rw [early, Option.none_or] at found
        obtain ⟨exact, stopped⟩ := second.beyond (pending ▸ size) call found
        refine ⟨exact, ?_⟩
        rw [bind_of_ok (first.within size early)]
        refine stopped.trans ?_
        rw [overflowAt, overflowAt, pending, env]

theorem inFrame {p : EStateM Stop Watch α} {q : Run α} (h : Tracked limit p q) (f : FrameId) :
    Tracked limit (Carrier.watch.platform.within f p) (Carrier.machine.platform.within f q) := by
  intro w
  obtain ⟨begun, inside⟩ := h (Carrier.watch.setEnv f w)
  refine ⟨begun, ?_⟩
  have outer : ∀ depth, Carrier.machine.platform.within f q (w.erase depth) =
      endingWith (fun m => { m with env := w.machine.env })
        (q ((Carrier.watch.setEnv f w).erase depth)) := fun depth =>
    Platform.within_eq Carrier.machine.platform f q (w.erase depth)
  rw [Platform.within_eq]
  refine ⟨?_, ?_, ?_, ?_, fun size none => ?_, fun size call found => ?_⟩
  · rw [endState_endingWith]
    exact inside.calls
  · rw [endState_endingWith]
    exact inside.pending
  · rw [endState_endingWith]
  · rw [outer, inside.free, endingWith_endingWith, endingWith_endingWith]
    rfl
  · rw [outer, inside.within size none, endingWith_endingWith, endingWith_endingWith]
    rfl
  · obtain ⟨exact, stopped⟩ := inside.beyond size call found
    exact ⟨exact, by rw [outer, stopped]; rfl⟩

theorem below_limit {w : Watch} (deeper : w.pending.length < limit) :
    (w.erase (some limit)).atDepthLimit = false :=
  decide_eq_false (Nat.not_le.2 deeper)

theorem oneDeeper {p : EStateM Stop Watch Value} {q : Run Value} (h : Tracked limit p q)
    (paren : Token) :
    Tracked limit (Carrier.watch.oneDeeper paren p) (oneDeeper paren q) := by
  intro w
  obtain ⟨begun, inside⟩ := h (w.enter paren)
  have back : ∀ depth (ended : EStateM.Result Stop Watch Value),
      (endState ended).pending = paren :: w.pending →
      endingWith (fun m => { m with depth := m.depth - 1 }) (endingWith (·.erase depth) ended) =
        endingWith (·.erase depth) (endingWith w.leave ended) := by
    intro depth ended pending
    rw [endingWith_endingWith, endingWith_endingWith]
    refine endingWith_congr ?_
    simp [Watch.erase, Watch.leave, Machine.atDepth, pending]
  refine ⟨⟨paren, w.pending, w.machine⟩ :: begun, ?_, ?_, ?_, ?_, fun size none => ?_,
    fun size call found => ?_⟩
  · rw [endState_endingWith]
    exact inside.calls.trans (List.append_assoc _ _ _)
  · rw [endState_endingWith]
    rfl
  · rw [endState_endingWith]
    exact inside.env
  · rw [oneDeeper_eq rfl, ← back none _ inside.pending, ← inside.free]
    rfl
  · obtain ⟨below, none⟩ := List.forall_mem_cons.1 (List.find?_eq_none.1 none)
    have deeper := Call.not_exceeds.1 below
    rw [oneDeeper_eq (below_limit deeper), ← back (some limit) _ inside.pending,
      ← inside.within deeper (List.find?_eq_none.2 none)]
    rfl
  · rw [List.find?_cons] at found
    split at found
    · next exceeds =>
      -- This call itself is too deep: it is the next one after as many as may be.
      cases found
      have full : w.pending.length = limit := by
        have := of_decide_eq_true exceeds
        simp only [Call.inProgress] at this
        omega
      refine ⟨congrArg (· + 1) full, ?_⟩
      have atLimit : (w.erase (some limit)).atDepthLimit = true :=
        decide_eq_true (Nat.le_of_eq full.symm)
      rw [Run.oneDeeper, if_pos atLimit]
      rfl
    · next below =>
      have deeper := Call.not_exceeds.1 (Bool.eq_false_iff.1 below)
      obtain ⟨exact, stopped⟩ := inside.beyond deeper call found
      refine ⟨exact, ?_⟩
      rw [oneDeeper_eq (below_limit deeper)]
      exact congrArg _ stopped

end Tracked

def Congruence.tracked (limit : Nat) : Congruence .watch .machine where
  more := 0
  rel := Tracked limit
  exhausted q none := by
    rw [none rfl]
    exact Tracked.lift (.throw .exhausted) (.throw .exhausted)
  lift silent keeps := Tracked.lift silent.depthFree keeps
  write piece := Tracked.lift (.write piece) (.write piece)
  bind := .bind
  within := .inFrame
  oneDeeper := .oneDeeper

/-- What comes behind the statements of a batch: the output is flushed. -/
def Platform.closing (P : Platform) :
    EStateM.Result Stop P.State Unit → EStateM.Result Stop P.State Unit
  | .ok _ s => P.flush s
  | .error .exhausted s => .error .exhausted s
  | .error e s => (do P.flush; throw e : P.Action Unit) s

theorem Platform.interpret_eq (P : Platform) (steps : Nat) (program : List Stmt) (s : P.State) :
    P.interpret steps program s = P.closing (P.executeAll steps program s) := rfl

/-- The output is flushed in the same way whether the run was watched or not. -/
theorem closing_erase (limit : Option Nat) (r : EStateM.Result Stop Watch Unit) :
    Platform.machine.closing (endingWith (·.erase limit) r) =
      endingWith (·.erase limit) (Carrier.watch.platform.closing r) := by
  have flush : ∀ w : Watch, Run.flush (w.erase limit) =
      endingWith (·.erase limit) (Carrier.watch.platform.flush w) := by
    intro w
    rw [Watch.erase, DepthFree.flush, endingWith_endingWith]
    rfl
  have behind : ∀ (e : Stop) (w : Watch), (do Run.flush; throw e : Run Unit) (w.erase limit) =
      endingWith (·.erase limit)
        ((do Carrier.watch.platform.flush; throw e : EStateM Stop Watch Unit) w) := by
    intro e w
    cases flushed : Carrier.watch.platform.flush w with
    | ok _ w' =>
      rw [bind_of_ok ((flush w).trans (congrArg _ flushed)), bind_of_ok flushed]
      rfl
    | error e' w' =>
      rw [bind_of_error ((flush w).trans (congrArg _ flushed)), bind_of_error flushed]
      rfl
  cases r with
  | ok _ w => exact flush w
  | error e w =>
    cases e with
    | exhausted => rfl
    | fault _ | output _ => exact behind _ w

/-- No call is begun or ended behind the statements of a batch. -/
theorem endState_closing (r : EStateM.Result Stop Watch Unit) :
    ∃ machine, endState (Carrier.watch.platform.closing r) = { endState r with machine } := by
  have flush : ∀ w : Watch,
      ∃ machine, endState (Carrier.watch.platform.flush w) = { w with machine } :=
    fun w => ⟨_, endState_endingWith _ _⟩
  have behind : ∀ (e : Stop) (w : Watch), ∃ machine, endState
      ((do Carrier.watch.platform.flush; throw e : EStateM Stop Watch Unit) w) =
        { w with machine } := by
    intro e w
    have flush := flush w
    cases flushed : Carrier.watch.platform.flush w with
    | ok _ w' =>
      rw [flushed] at flush
      rw [bind_of_ok flushed]
      exact flush
    | error e' w' =>
      rw [flushed] at flush
      rw [bind_of_error flushed]
      exact flush
  cases r with
  | ok _ w => exact flush w
  | error e w =>
    cases e with
    | exhausted => exact ⟨w.machine, rfl⟩
    | fault _ | output _ => exact behind _ w

/-- The run of a batch without a limit, watched. -/
def watchBatch (steps : Nat) (found : List (NodeId × Nat)) (program : List Stmt) (m : Machine) :
    EStateM.Result Stop Watch Unit :=
  Carrier.watch.platform.interpret steps program (.start (m.addDistances found))

section batch

variable (limit steps : Nat) (found : List (NodeId × Nat)) (program : List Stmt) (m : Machine)

/-- What the watch sees of the statements of a batch; no call is in progress at the end. -/
theorem tracks_batch : Tracks limit (.start (m.addDistances found))
    (endState (watchBatch steps found program m)).calls
    (Carrier.watch.platform.executeAll steps program (.start (m.addDistances found)))
    (Platform.machine.executeAll steps program) ∧
    (endState (watchBatch steps found program m)).pending = [] := by
  obtain ⟨begun, tracks⟩ :=
    (Congruence.tracked limit).executeAll steps program (.start (m.addDistances found))
  obtain ⟨machine, closed⟩ := endState_closing
    (Carrier.watch.platform.executeAll steps program (.start (m.addDistances found)))
  have ended : endState (watchBatch steps found program m) = _ := closed
  rw [ended]
  refine ⟨?_, tracks.pending⟩
  rw [show _ = begun from tracks.calls.trans (List.nil_append begun)]
  exact tracks

theorem interpret_unlimited : interpret steps found program (m.atDepth 0 none) =
    endingWith (·.machine.atDepth 0 none) (watchBatch steps found program m) := by
  obtain ⟨tracks, ended⟩ := tracks_batch 0 steps found program m
  have run : interpret steps found program (m.atDepth 0 none) =
      endingWith (·.erase none) (watchBatch steps found program m) := by
    rw [Platform.interpret_machine, Platform.interpret_eq]
    refine (congrArg Platform.machine.closing tracks.free).trans ?_
    exact closing_erase none _
  rw [run]
  exact endingWith_congr (by rw [Watch.erase, ended]; rfl)

theorem interpret_limited
    (small : (endState (watchBatch steps found program m)).calls.find? (·.exceeds limit) = none) :
    interpret steps found program (m.atDepth 0 (some limit)) =
      endingWith (·.machine.atDepth 0 (some limit)) (watchBatch steps found program m) := by
  obtain ⟨tracks, ended⟩ := tracks_batch limit steps found program m
  have run : interpret steps found program (m.atDepth 0 (some limit)) =
      endingWith (·.erase (some limit)) (watchBatch steps found program m) := by
    rw [Platform.interpret_machine, Platform.interpret_eq]
    refine (congrArg Platform.machine.closing (tracks.within (Nat.zero_le _) small)).trans ?_
    exact closing_erase (some limit) _
  rw [run]
  exact endingWith_congr (by rw [Watch.erase, ended]; rfl)

theorem interpret_overflow {call : Call}
    (first : (endState (watchBatch steps found program m)).calls.find? (·.exceeds limit) =
      some call) :
    call.inProgress = limit + 1 ∧ interpret steps found program (m.atDepth 0 (some limit)) =
      (do Run.flush; throw (.fault ⟨.stackOverflow, call.paren.line⟩) : Run Unit)
        ({ call.machine with env := m.env }.atDepth 0 (some limit)) := by
  obtain ⟨tracks, -⟩ := tracks_batch limit steps found program m
  obtain ⟨exact, stopped⟩ := tracks.beyond (Nat.zero_le _) call first
  refine ⟨exact, ?_⟩
  rw [Platform.interpret_machine, Platform.interpret_eq]
  exact congrArg Platform.machine.closing stopped

/-- A batch that begins with no call in progress leaves none, and the limit as it was. -/
theorem interpret_atDepth : ∃ m' : Machine, endState (interpret steps found program
    (m.atDepth 0 (some limit))) = m'.atDepth 0 (some limit) := by
  cases first : (endState (watchBatch steps found program m)).calls.find? (·.exceeds limit) with
  | none =>
    rw [interpret_limited limit steps found program m first, endState_endingWith]
    exact ⟨_, rfl⟩
  | some call =>
    rw [(interpret_overflow limit steps found program m first).2,
      DepthFree.flush.bind fun _ => .throw _, endState_endingWith]
    exact ⟨_, rfl⟩

end batch

/-- The machine has no call in progress, and the limit of sessions. -/
def Machine.Limited (m : Machine) : Prop := m.atDepth 0 (some maxDepth) = m

theorem Session.run_limited (steps : Nat) (s : Session) (source : List UInt8)
    (h : s.machine.Limited) : (s.run steps source).2.machine.Limited := by
  unfold Session.run
  rcases compile source s.nextId with ⟨_ | c, next⟩
  · exact h
  · obtain ⟨m', ended⟩ := interpret_atDepth maxDepth steps c.distances c.program s.machine
    rw [show s.machine.atDepth 0 (some maxDepth) = s.machine from h] at ended
    dsimp only [Session.perform]
    cases ran : interpret steps c.distances c.program s.machine with
    | ok _ m | error _ m =>
      rw [ran] at ended
      obtain rfl : m = m'.atDepth 0 (some maxDepth) := ended
      rfl

theorem Session.runAll_limited (s : Session) (batches : List (Nat × List UInt8))
    (h : s.machine.Limited) : (s.runAll batches).2.machine.Limited := by
  induction batches generalizing s with
  | nil => exact h
  | cons batch rest ih => exact ih _ (s.run_limited batch.1 batch.2 h)

/-- The limit of calls in progress is not seen below it, and is exact. Every session begins its
batches with no call in progress and with the limit. A batch that never has more calls in progress
without a limit, as the watch counts them, ends in the same way with it: with the same result, on
the same machine but for the limit itself, or with its steps used up. Otherwise it stops at the
first call that is one too many, on the machine that the run without a limit has there. -/
theorem depth_limit_exact :
    (∀ (sink : Sink) (clock : Nat → Float) (batches : List (Nat × List UInt8)),
      ((Session.start sink clock).runAll batches).2.machine.Limited) ∧
    ∀ (m : Machine) (steps : Nat) (found : List (NodeId × Nat)) (program : List Stmt),
      let unlimited := interpret steps found program (m.atDepth 0 none)
      let limited := interpret steps found program (m.atDepth 0 (some maxDepth))
      let watched := watchBatch steps found program m
      unlimited = endingWith (·.machine.atDepth 0 none) watched ∧
      ((∀ call ∈ (endState watched).calls, call.inProgress ≤ maxDepth) →
        limited = endingWith (·.atDepth 0 (some maxDepth)) unlimited) ∧
      ∀ call, (endState watched).calls.find? (·.exceeds maxDepth) = some call →
        call.inProgress = maxDepth + 1 ∧
          limited = (do Run.flush; throw (.fault ⟨.stackOverflow, call.paren.line⟩) : Run Unit)
            ({ call.machine with env := m.env }.atDepth 0 (some maxDepth)) := by
  refine ⟨fun sink clock batches => Session.runAll_limited _ batches rfl,
    fun m steps found program => ?_⟩
  have unlimited := interpret_unlimited steps found program m
  refine ⟨unlimited, fun small => ?_, fun call => interpret_overflow maxDepth steps found program m⟩
  have none : (endState (watchBatch steps found program m)).calls.find? (·.exceeds maxDepth) =
      none := List.find?_eq_none.2 fun call member exceeds =>
    absurd (of_decide_eq_true exceeds) (Nat.not_lt.2 (small call member))
  rw [unlimited, interpret_limited maxDepth steps found program m none, endingWith_endingWith]
  rfl

end Treewalk
