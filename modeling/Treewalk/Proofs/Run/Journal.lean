import Mathlib
import Treewalk.Proofs.Run.Carrier

/-!
# Outputs that fail

A `Journal` is a machine with all that it has written beside it, each piece with the machine as the
write found it. The run of a program on it is the run for a sink that takes everything.

For any other sink the run does the same as long as nothing is refused. At the first piece that is,
it stops, on the machine that the journal has there, with the beginning of the piece that the sink
has taken: nothing takes up the run again, and nothing that comes later in it is done.
-/

namespace Treewalk

open Run

/-- A piece of text that is written. -/
structure Entry where
  piece : String
  /-- The machine as the write finds it. -/
  machine : Machine

/-- What a sink refuses, and how. -/
abbrev Policy := Written → String → Option Sink.Refusal

/-- Of a refused text a beginning is taken. -/
theorem Sink.Refusal.exists_rest (r : Sink.Refusal) (text : String) :
    ∃ rest, text = r.beginning text ++ rest := by
  refine ⟨String.ofList (text.toList.drop r.taken), ?_⟩
  rw [beginning, ← String.ofList_append, List.take_append_drop, String.ofList_toList]

namespace Entry

variable (refusal : Policy)

/-- How a sink with this policy refuses the piece, if it does. -/
def refused (entry : Entry) : Option Sink.Refusal :=
  refusal entry.machine.sink.written entry.piece

def isRefused (entry : Entry) : Bool := (entry.refused refusal).isSome

theorem isRefused_eq_false {refusal : Policy} {entry : Entry} :
    entry.isRefused refusal = false ↔ entry.refused refusal = none := by
  rw [isRefused, Option.isSome_eq_false_iff, Option.isNone_iff_eq_none]

theorem find?_eq_none {refusal : Policy} {entries : List Entry} :
    entries.find? (·.isRefused refusal) = none ↔
      ∀ entry ∈ entries, entry.refused refusal = none := by
  simp only [List.find?_eq_none, Bool.not_eq_true, isRefused_eq_false]

theorem find?_eq_some {refusal : Policy} {entries : List Entry} {entry : Entry} :
    entries.find? (·.isRefused refusal) = some entry ↔
      ∃ before after, entries = before ++ entry :: after ∧
        (∀ earlier ∈ before, earlier.refused refusal = none) ∧
        ∃ r, entry.refused refusal = some r := by
  simp only [List.find?_eq_some_iff_append, Bool.not_eq_true', isRefused_eq_false]
  constructor
  · rintro ⟨refused, before, after, split, first⟩
    exact ⟨before, after, split, first, Option.isSome_iff_exists.1 refused⟩
  · rintro ⟨before, after, split, first, refused⟩
    exact ⟨Option.isSome_iff_exists.2 refused, before, after, split, first⟩

/-- Each write finds what was written before it, from the first of two texts to the second one. -/
def Chain : Written → List Entry → Written → Prop
  | w, [], w' => w' = w
  | w, entry :: rest, w' => entry.machine.sink.written = w ∧ Chain (w.add entry.piece) rest w'

theorem Chain.append {w w' w'' : Written} {first second : List Entry} (h : Chain w first w')
    (h' : Chain w' second w'') : Chain w (first ++ second) w'' := by
  induction first generalizing w with
  | nil =>
    cases h
    exact h'
  | cons entry rest ih => exact ⟨h.1, ih h.2⟩

theorem Chain.text {w w' : Written} {entries : List Entry} (h : Chain w entries w') :
    ∃ more, w'.text = w.text ++ more := by
  induction entries generalizing w with
  | nil => exact ⟨"", by rw [show w' = w from h, String.append_empty]⟩
  | cons entry rest ih =>
    obtain ⟨more, same⟩ := ih h.2
    exact ⟨entry.piece ++ more, by rw [same, Written.add, String.append_assoc]⟩

/-- The machine that the write leaves if it is refused. -/
def leaving (entry : Entry) (r : Sink.Refusal) : Machine :=
  { entry.machine with sink := entry.machine.sink.take (r.beginning entry.piece) }

/-- Every write finds a beginning of what is written in the end, and leaves one if it is refused. -/
theorem Chain.text_leaving {w w' : Written} {entries : List Entry} (h : Chain w entries w')
    (r : Sink.Refusal) :
    ∀ entry ∈ entries, ∃ more, w'.text = (entry.leaving r).sink.written.text ++ more := by
  induction entries generalizing w with
  | nil => exact List.forall_mem_nil _
  | cons entry rest ih =>
    refine List.forall_mem_cons.2 ⟨?_, ih h.2⟩
    obtain ⟨more, same⟩ := h.2.text
    obtain ⟨refused, piece⟩ := r.exists_rest entry.piece
    refine ⟨refused ++ more, ?_⟩
    show w'.text = entry.machine.sink.written.text ++ r.beginning entry.piece ++ _
    calc
      w'.text = w.text ++ entry.piece ++ more := same
      _ = w.text ++ (r.beginning entry.piece ++ refused) ++ more := by rw [← piece]
      _ = w.text ++ r.beginning entry.piece ++ (refused ++ more) := by
        simp only [String.append_assoc]
      _ = _ := by rw [h.1]

end Entry

/-- A machine with all that it has written, in order. -/
structure Journal where
  machine : Machine
  entries : List Entry

/-- The machine when its sink has this policy. -/
def Machine.refusing (refusal : Policy) (m : Machine) : Machine :=
  { m with sink := { m.sink with refusal } }

@[reducible]
def Carrier.journal : Carrier where
  State := Journal
  env j := j.machine.env
  setEnv f j := { j with machine := { j.machine with env := f } }
  lift p j := endingWith (fun machine => { j with machine }) (p j.machine)
  oneDeeper paren p j :=
    if j.machine.atDepthLimit then .error (.fault ⟨.stackOverflow, paren.line⟩) j
    else
      endingWith (fun j' => { j' with machine.depth := j'.machine.depth - 1 })
        (p { j with machine.depth := j.machine.depth + 1 })
  write piece j := .ok ()
    ⟨{ j.machine with sink := j.machine.sink.take piece }, j.entries ++ [⟨piece, j.machine⟩]⟩
  lift_pure _ := rfl
  lift_throw _ := rfl

/-- The end of a run at a refused piece, as seen from where the run began. -/
def refusedAt {α : Type} (refusal : Policy) (r : Sink.Refusal) (entry : Entry) (m : Machine) :
    EStateM.Result Stop Machine α :=
  .error (.output r.message)
    ({ entry.leaving r with env := m.env, depth := m.depth }.refusing refusal)

theorem write_refusing (refusal : Policy) (piece : String) (m : Machine) :
    write piece (m.refusing refusal) =
      match Entry.refused refusal ⟨piece, m⟩ with
      | some r => refusedAt refusal r ⟨piece, m⟩ m
      | none => .ok () (Machine.refusing refusal { m with sink := m.sink.take piece }) := by
  show (match Entry.refused refusal ⟨piece, m⟩ with | some _ => _ | none => _) = _
  cases Entry.refused refusal ⟨piece, m⟩ <;> rfl

/-- What the end of a run with a journal says of the run `q` for a sink with this policy. -/
structure Logs {α : Type} (refusal : Policy) (j : Journal) (made : List Entry)
    (ended : EStateM.Result Stop Journal α) (q : Run α) : Prop where
  entries : (endState ended).entries = j.entries ++ made
  env : (endState ended).machine.env = j.machine.env
  depth : (endState ended).machine.depth = j.machine.depth
  chain : Entry.Chain j.machine.sink.written made (endState ended).machine.sink.written
  /-- It is the same run if nothing is refused. -/
  taken : made.find? (·.isRefused refusal) = none →
    q (j.machine.refusing refusal) = endingWith (·.machine.refusing refusal) ended
  /-- The first piece that is refused ends the run. -/
  cut : ∀ entry r, made.find? (·.isRefused refusal) = some entry →
    entry.refused refusal = some r →
    q (j.machine.refusing refusal) = refusedAt refusal r entry j.machine

/-- The runs are in step, with a journal and for a sink with this policy. -/
def Logged {α : Type} (refusal : Policy) (p : EStateM Stop Journal α) (q : Run α) : Prop :=
  ∀ j, ∃ made, Logs refusal j made (p j) q

namespace Logged

variable {refusal : Policy} {α β : Type}

/-- What is silent writes nothing. -/
theorem lift {p : Run α} (silent : Silent p) (keeps : Keeps p) :
    Logged refusal (Carrier.journal.lift p) p := by
  intro j
  have ended : endState (Carrier.journal.lift p j) = { j with machine := endState (p j.machine) } :=
    endState_endingWith _ _
  have kept : j.machine.Kept (endState (p j.machine)) := by
    have kept := keeps j.machine
    cases ran : p j.machine with
    | ok a m | error e m =>
      rw [ran] at kept
      exact kept
  refine ⟨[], ?_, ?_, ?_, ?_, fun _ => ?_, fun _ _ found => nomatch found⟩
  · rw [ended, List.append_nil]
  · rw [ended]
    exact kept.env
  · rw [ended]
    exact kept.depth
  · rw [ended]
    exact congrArg Sink.written (silent.sink j.machine)
  · refine (silent j.machine j.machine.depth j.machine.depthLimit
      { j.machine.sink with refusal }).trans ?_
    rw [endingWith_endingWith]
    refine endingWith_congr ?_
    show Machine.aside _ _ _ _ = Machine.refusing refusal (endState (p j.machine))
    rw [← silent.aside j.machine]
    rfl

theorem write (piece : String) : Logged refusal (Carrier.journal.write piece) (write piece) := by
  intro j
  refine ⟨[⟨piece, j.machine⟩], rfl, rfl, rfl, ⟨rfl, rfl⟩, fun free => ?_,
    fun entry r found refused => ?_⟩
  · rw [write_refusing, Entry.find?_eq_none.1 free _ (.head _)]
    rfl
  · obtain rfl := List.mem_singleton.1 (List.mem_of_find?_eq_some found)
    rw [write_refusing, refused]

theorem bind {p : EStateM Stop Journal α} {q : Run α} {f : α → EStateM Stop Journal β}
    {g : α → Run β} (h : Logged refusal p q) (next : ∀ a, Logged refusal (f a) (g a)) :
    Logged refusal (p >>= f) (q >>= g) := by
  intro j
  obtain ⟨made, first⟩ := h j
  cases ran : p j with
  | error e j' =>
    rw [ran] at first
    refine ⟨made, ?_⟩
    rw [bind_of_error ran]
    refine ⟨first.entries, first.env, first.depth, first.chain, fun free => ?_,
      fun entry r found refused => ?_⟩
    · exact bind_of_error (first.taken free)
    · exact bind_of_error (first.cut entry r found refused)
  | ok a j' =>
    rw [ran] at first
    obtain ⟨made', second⟩ := next a j'
    have env : j'.machine.env = j.machine.env := first.env
    have depth : j'.machine.depth = j.machine.depth := first.depth
    refine ⟨made ++ made', ?_⟩
    rw [bind_of_ok ran]
    refine ⟨?_, second.env.trans env, second.depth.trans depth, first.chain.append second.chain,
      fun free => ?_, fun entry r found refused => ?_⟩
    · rw [second.entries, show j'.entries = _ from first.entries, List.append_assoc]
    · rw [List.find?_append, Option.or_eq_none_iff] at free
      rw [bind_of_ok (first.taken free.1)]
      exact second.taken free.2
    · rw [List.find?_append] at found
      -- The first piece that is refused may be one of the first run or of the second.
      cases early : made.find? (·.isRefused refusal) with
      | some entry' =>
        rw [early, Option.some_or] at found
        cases found
        exact bind_of_error (first.cut entry r early refused)
      | none =>
        rw [early, Option.none_or] at found
        rw [bind_of_ok (first.taken early)]
        refine (second.cut entry r found refused).trans ?_
        rw [refusedAt, refusedAt, env, depth]

theorem inFrame {p : EStateM Stop Journal α} {q : Run α} (h : Logged refusal p q) (f : FrameId) :
    Logged refusal (Carrier.journal.platform.within f p) (Carrier.machine.platform.within f q) := by
  intro j
  obtain ⟨made, inside⟩ := h (Carrier.journal.setEnv f j)
  refine ⟨made, ?_⟩
  have outer : Carrier.machine.platform.within f q (j.machine.refusing refusal) =
      endingWith (fun m => { m with env := j.machine.env })
        (q ((Carrier.journal.setEnv f j).machine.refusing refusal)) :=
    Platform.within_eq Carrier.machine.platform f q (j.machine.refusing refusal)
  rw [Platform.within_eq]
  refine ⟨?_, ?_, ?_, ?_, fun free => ?_, fun entry r found refused => ?_⟩
  · rw [endState_endingWith]
    exact inside.entries
  · rw [endState_endingWith]
  · rw [endState_endingWith]
    exact inside.depth
  · rw [endState_endingWith]
    exact inside.chain
  · rw [outer, inside.taken free, endingWith_endingWith, endingWith_endingWith]
    rfl
  · rw [outer, inside.cut entry r found refused]
    rfl

theorem oneDeeper {p : EStateM Stop Journal Value} {q : Run Value} (h : Logged refusal p q)
    (paren : Token) : Logged refusal (Carrier.journal.oneDeeper paren p) (oneDeeper paren q) := by
  intro j
  have sameLimit : (j.machine.refusing refusal).atDepthLimit = j.machine.atDepthLimit := rfl
  cases limit : j.machine.atDepthLimit with
  | true =>
    have stops : Carrier.journal.oneDeeper paren p j =
      .error (.fault ⟨.stackOverflow, paren.line⟩) j := if_pos limit
    refine ⟨[], ?_⟩
    rw [stops]
    refine ⟨(List.append_nil _).symm, rfl, rfl, rfl, fun _ => ?_, fun _ _ found => nomatch found⟩
    rw [Run.oneDeeper, if_pos (sameLimit.trans limit)]
    rfl
  | false =>
    obtain ⟨made, inside⟩ := h { j with machine.depth := j.machine.depth + 1 }
    have deeper : Carrier.journal.oneDeeper paren p j =
        endingWith (fun j' => { j' with machine.depth := j'.machine.depth - 1 })
          (p { j with machine.depth := j.machine.depth + 1 }) :=
      if_neg (by rw [limit]; exact Bool.false_ne_true)
    refine ⟨made, ?_⟩
    rw [deeper]
    refine ⟨?_, ?_, ?_, ?_, fun free => ?_, fun entry r found refused => ?_⟩
    · rw [endState_endingWith]
      exact inside.entries
    · rw [endState_endingWith]
      exact inside.env
    · rw [endState_endingWith]
      exact congrArg (· - 1) inside.depth
    · rw [endState_endingWith]
      exact inside.chain
    · rw [oneDeeper_eq (sameLimit.trans limit)]
      refine (congrArg _ (inside.taken free)).trans ?_
      rw [endingWith_endingWith, endingWith_endingWith]
      rfl
    · rw [oneDeeper_eq (sameLimit.trans limit)]
      exact congrArg _ (inside.cut entry r found refused)

end Logged

def Congruence.logged (refusal : Policy) : Congruence .journal .machine where
  more := 0
  rel := Logged refusal
  exhausted q none := by
    rw [none rfl]
    exact Logged.lift (.throw .exhausted) (.throw .exhausted)
  lift := Logged.lift
  write := .write
  bind := .bind
  within := .inFrame
  oneDeeper := .oneDeeper

/-- The run of the statements of a batch for a sink that takes everything, with its journal. -/
def Machine.journal (m : Machine) (steps : Nat) (c : Compiled) : EStateM.Result Stop Journal Unit :=
  Carrier.journal.platform.executeAll steps c.program ⟨m.addDistances c.distances, []⟩

/-- When the output can be flushed a batch ends with its last statement. -/
theorem interpret_of_flushes {m : Machine} (flushes : m.sink.flushRefusal = none) (steps : Nat)
    (found : List (NodeId × Nat)) (program : List Stmt) :
    interpret steps found program m =
      Platform.machine.executeAll steps program (m.addDistances found) := by
  have kept := Keeps.statements steps program (m.addDistances found)
  have flush : ∀ m' : Machine, m'.sink.flushRefusal = none → Run.flush m' = .ok () m' := by
    intro m' flushes
    rw [Run.flush, flushes]
  have machine : Platform.machine.executeAll steps program =
      program.forM fun s => discard (execute steps s) := by
    rw [Platform.executeAll, (Platform.agrees steps).execute]
  rw [machine]
  unfold interpret
  cases ran : program.forM (fun s => discard (execute steps s)) (m.addDistances found) with
  | ok _ m' =>
    rw [ran] at kept
    exact flush m' (kept.flush.trans flushes)
  | error e m' =>
    rw [ran] at kept
    have flushed := flush m' (kept.flush.trans flushes)
    cases e with
    | exhausted => rfl
    | fault _ | output _ =>
      dsimp only
      rw [flushed]

/-- The session when its sink refuses nothing from now on. -/
def Session.unrefused (s : Session) : Session :=
  { s with machine := s.machine.refusing fun _ _ => none }

section session

variable {s : Session} {source : List UInt8} {c : Compiled} {next : NodeId}

theorem Session.run_of_flushes (compiled : compile source s.nextId = (.ok c, next))
    (flushes : s.machine.sink.flushRefusal = none) (steps : Nat)
    {ended : EStateM.Result Stop Machine Unit}
    (ran : Platform.machine.executeAll steps c.program (s.machine.addDistances c.distances) =
      ended) : s.run steps source = (resultOf ended, ⟨endState ended, next⟩) := by
  rw [Session.run, compiled]
  dsimp only [Session.perform]
  rw [interpret_of_flushes flushes, ran]
  cases ended <;> rfl

/-- What the journal of a batch says of it for a sink with some policy. -/
theorem Machine.logs_journal (refusal : Policy) (m : Machine) (steps : Nat) (c : Compiled) :
    Logs refusal ⟨m.addDistances c.distances, []⟩ (endState (m.journal steps c)).entries
      (m.journal steps c) (Platform.machine.executeAll steps c.program) := by
  obtain ⟨made, logs⟩ := (Congruence.logged refusal).executeAll steps c.program
    ⟨m.addDistances c.distances, []⟩
  have entries : (endState (m.journal steps c)).entries = made := logs.entries
  rw [entries]
  exact logs

theorem Session.run_of_taken (compiled : compile source s.nextId = (.ok c, next))
    (flushes : s.machine.sink.flushRefusal = none) (steps : Nat) {refusal : Policy}
    (taken : ∀ entry ∈ (endState (s.machine.journal steps c)).entries,
      entry.refused refusal = none) :
    ({ s with machine := s.machine.refusing refusal } : Session).run steps source =
      (resultOf (s.machine.journal steps c),
        ⟨(endState (s.machine.journal steps c)).machine.refusing refusal, next⟩) := by
  have same := (s.machine.logs_journal refusal steps c).taken (Entry.find?_eq_none.2 taken)
  rw [Session.run_of_flushes (s := { s with machine := s.machine.refusing refusal }) compiled
    flushes steps same, resultOf_endingWith, endState_endingWith]

/-- In every session, when the output can be flushed: what a sink takes of a batch is a beginning of
what the batch writes for one that takes everything, and the batch comes back to its frame and its
depth. If nothing is refused, both end alike. At the first piece that is refused, however much of it
was taken before, the batch ends with that error of the output, on the machine of the other run as
the write found it there, with the text that was taken until then: nothing that comes later has been
done. -/
theorem failing_output_cuts (compiled : compile source s.nextId = (.ok c, next))
    (flushes : s.machine.sink.flushRefusal = none) (steps : Nat) :
    let refusal := s.machine.sink.refusal
    let journal := s.machine.journal steps c
    let free := s.unrefused.run steps source
    let run := s.run steps source
    free = (resultOf journal, ⟨(endState journal).machine.refusing fun _ _ => none, next⟩) ∧
    Entry.Chain s.machine.sink.written (endState journal).entries free.2.machine.sink.written ∧
    (∃ more, free.2.output = run.2.output ++ more) ∧
    (run.2.machine.env = s.machine.env ∧ run.2.machine.depth = s.machine.depth) ∧
    ((∀ entry ∈ (endState journal).entries, entry.refused refusal = none) →
      run.1 = free.1 ∧
        run.2 = { free.2 with machine := free.2.machine.refusing refusal }) ∧
    ∀ before entry after r, (endState journal).entries = before ++ entry :: after →
      (∀ earlier ∈ before, earlier.refused refusal = none) →
      entry.refused refusal = some r →
      run.1 = .error (.stopped (.output r.message)) ∧
        (Failure.stopped (.output r.message)).exitCode = 70 ∧
        run.2 = ⟨{ entry.machine with
          sink := entry.machine.sink.take (r.beginning entry.piece)
          env := s.machine.env
          depth := s.machine.depth }.refusing refusal, next⟩ := by
  intro refusal journal free run
  have logs := s.machine.logs_journal refusal steps c
  have free_eq : free =
      (resultOf journal, ⟨(endState journal).machine.refusing fun _ _ => none, next⟩) :=
    Session.run_of_taken compiled flushes steps fun _ _ => rfl
  have taken : (∀ entry ∈ (endState journal).entries, entry.refused refusal = none) →
      run = (resultOf journal, ⟨(endState journal).machine.refusing refusal, next⟩) :=
    Session.run_of_taken compiled flushes steps
  have cut : ∀ entry r, (endState journal).entries.find? (·.isRefused refusal) = some entry →
      entry.refused refusal = some r →
      run = (.error (.stopped (.output r.message)), ⟨{ entry.leaving r with
        env := s.machine.env, depth := s.machine.depth }.refusing refusal, next⟩) :=
    fun entry r found refused =>
      Session.run_of_flushes compiled flushes steps (logs.cut entry r found refused)
  -- The run ends in one of the two ways, and either way leaves a beginning of the text.
  have ends : (∃ more, free.2.output = run.2.output ++ more) ∧
      run.2.machine.env = s.machine.env ∧ run.2.machine.depth = s.machine.depth := by
    rw [free_eq]
    cases found : (endState journal).entries.find? (·.isRefused refusal) with
    | none =>
      rw [taken (Entry.find?_eq_none.1 found)]
      exact ⟨⟨"", String.append_empty.symm⟩, logs.env, logs.depth⟩
    | some entry =>
      obtain ⟨_, _, _, _, r, refused⟩ := Entry.find?_eq_some.1 found
      rw [cut entry r found refused]
      exact ⟨logs.chain.text_leaving r entry (List.mem_of_find?_eq_some found), rfl, rfl⟩
  refine ⟨free_eq, by rw [free_eq]; exact logs.chain, ends.1, ends.2, fun all => ?_,
    fun before entry after r split first refused => ?_⟩
  · rw [taken all, free_eq]
    exact ⟨rfl, rfl⟩
  · rw [cut entry r (Entry.find?_eq_some.2 ⟨before, after, split, first, r, refused⟩) refused]
    exact ⟨rfl, rfl, rfl⟩

end session

/-- A batch that prints, declares a variable and prints again. -/
def twiceSource : List UInt8 := "print true;var x;print x;".toUTF8.data.toList

def twiceProgram : List Stmt :=
  let x : Token := ⟨.identifier, "x", none, 1⟩
  [.print (.constant .true), .var ⟨x, none⟩, .print (.read ⟨0, x⟩)]

/-- When the sink takes one line, the declaration is done and the second `print` is not. -/
theorem failing_output_cuts_full :
    let session := Session.start (.limited 1 "sink is full") fun _ => 0
    compile twiceSource session.nextId = (.ok ⟨twiceProgram, []⟩, 1) ∧
      session.machine.sink.flushRefusal = none ∧
      (session.run 2 twiceSource).1 = .error (.stopped (.output "sink is full")) ∧
      (session.run 2 twiceSource).2.output = "true\n" ∧
      (session.run 2 twiceSource).2.machine.store.frames.get? 0 "x" = some .nil := by
  intro session
  have compiled : compile twiceSource session.nextId = (.ok ⟨twiceProgram, []⟩, 1) := by
    show compile twiceSource 0 = _
    cbv
  obtain ⟨result, -, after⟩ := (failing_output_cuts compiled rfl 2).2.2.2.2.2 [_, _] _ [_]
    ⟨"sink is full", 0⟩ rfl (List.forall_mem_cons.2 ⟨rfl, List.forall_mem_singleton.2 (by cbv)⟩) rfl
  rw [after]
  exact ⟨compiled, rfl, result, rfl, rfl⟩

end Treewalk
