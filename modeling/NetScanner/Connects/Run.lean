import NetScanner.Infra.Lts
import NetScanner.Connects.Source
import NetScanner.Connects.Flight

/-!
# `connects.run`: the loops of a run, and what they share

`src/core/connects.zig`. A run spreads its connects over a few loops, one thread each.
They share the source and the window behind one lock (`Shared.take`, `Shared.done`), and
two atomics and a flag without it.

The model is a transition system. A loop's state carries its program counter `Pc`, and one
step of a loop touches the shared state at most once, so the steps of different loops
interleave as the threads can. What the machine and the network answer (the clock, the
result of `start`, which sockets are ready, what `finish` finds, whether memory is there)
is in the label (`LoopEnv`), and nothing is assumed about it.

The calls made on the source are logged in `Shared.calls`.
-/

namespace NetScanner.Connects

open Infra

variable {Job σ : Type*}

def startBatch : Nat := 16

/-- What `run` settles before its loops start. -/
structure Setup where
  /-- `inFlightLimit()` -/
  limit : Nat
  /-- `@min(loopCount(), limit)` -/
  loops : Nat
  /-- `POOL_PACE` -/
  poolPace : Nat
  pace : Pace
  loops_pos : 1 ≤ loops
  loops_le : loops ≤ limit

/-- Each loop can hold an even share of the largest window. -/
def Setup.capacity (u : Setup) : Nat := (u.limit + u.loops - 1) / u.loops

/-- Every loop holds at least one connect. -/
def Setup.window (u : Setup) : Window :=
  .init (max u.loops (min u.poolPace u.limit)) u.limit u.pace

/-! ## What the loops share -/

/-- A run's source and window, shared by its loops. -/
structure Shared (Job σ : Type*) where
  source : σ
  window : Window
  /-- The source's `waitCap`; 0 (`NO_CAP`) while it has none. -/
  waitCapMs : Nat := 0
  lastCuttableAnswerNs : Int := 0
  unconfirmed : List Job := []
  starved : Bool := false
  /-- The calls made on the source so far. -/
  calls : List (Call Job) := []

/-- What a loop that asks for a connect gets. -/
inductive Take (Job : Type*) where
  | job (job : Job)
  | full
  | dry

namespace Shared

variable (S : Source Job σ) (target : Job → Target)

/-- The next connect for a loop that has `inFlight` going. -/
def take (loops : Nat) (sh : Shared Job σ) (inFlight : Nat) : Take Job × Shared Job σ :=
  if max 1 (sh.window.size / loops) ≤ inFlight then (.full, sh)
  else
    match S.next sh.source with
    | (some job, source) =>
      (.job job, { sh with source := source, calls := sh.calls ++ [.next (some job)] })
    | (none, source) => (.dry, { sh with source := source, calls := sh.calls ++ [.next none] })

/-- The source hears one verdict. -/
def sourceDone (sh : Shared Job σ) (job : Job) (outcome : Outcome) (elapsedUs : Nat) :
    Shared Job σ :=
  { sh with
    source := S.done sh.source job outcome elapsedUs
    calls := sh.calls ++ [.done job outcome elapsedUs] }

/-- One verdict of a batch. An unconfirmed one is held back for `run` to confirm; if there
is no memory to hold it (`stored` false), it counts as open. -/
def doneOne (sh : Shared Job σ) (s : Settled Job) (now : Int) (stored : Bool) : Shared Job σ :=
  if s.verdict = .unconfirmed ∧ stored = true then
    { sh with unconfirmed := sh.unconfirmed ++ [s.job] }
  else
    let outcome := s.verdict.alone
    let sh := { sh with window := sh.window.observe outcome s.elapsedUs now }
    let sh := sh.sourceDone S s.job outcome s.elapsedUs
    if outcome ≠ .filtered ∧ (target s.job).cutFloorMs.isSome then
      { sh with lastCuttableAnswerNs := now }
    else sh

/-- The verdicts of a batch, in order; `stored k` is the memory for the `k`-th. -/
def doneEach (now : Int) (stored : Nat → Bool) :
    Nat → Shared Job σ → List (Settled Job) → Shared Job σ
  | _, sh, [] => sh
  | k, sh, s :: rest => doneEach now stored (k + 1) (sh.doneOne S target s now (stored k)) rest

/-- Report verdicts that all came in by `now`. -/
def done (sh : Shared Job σ) (settled : List (Settled Job)) (now : Int) (stored : Nat → Bool) :
    Shared Job σ :=
  if settled.length = 0 then sh
  else
    let sh := doneEach S target now stored 0 sh settled
    match S.waitCap with
    | none => sh
    | some waitCap => { sh with waitCapMs := (waitCap sh.source).getD 0 }

/-- A suspect whose failure turned out to be its own target's: unanswered. -/
def unanswered (sh : Shared Job σ) (job : Job) (now : Int) : Shared Job σ :=
  sh.done S target [{ job := job, verdict := .filtered, elapsedUs := 0 }] now fun _ => true

end Shared

/-- What the two loads of `Shared.cut` add up to. -/
def cutOf (cap : Nat) (lastAnswerNs : Int) : Cut where
  waitMs := if cap = 0 then none else some cap
  lastAnswerNs := lastAnswerNs

/-! ## One loop -/

/-- Where a loop stands. -/
inductive Pc (Job : Type*) where
  /-- Allocating its arrays. -/
  | begin
  /-- Head of `while (true)`: about to load `starved`. -/
  | head
  /-- Head of the top-up `while`. -/
  | topUp
  /-- About to call `shared.take`. -/
  | take (started : Int)
  /-- No target left to tell a suspect from a shortage. -/
  | noTarget (started : Int)
  /-- About to start a connect. -/
  | start (job : Job) (started : Int)
  /-- `hold` gave up: about to store `starved`. -/
  | starving
  /-- A connect went out: about to clear the shortage. -/
  | wentOut (job : Job) (started : Int) (attempt : Started)
  /-- About to file the connect as settled or in flight. -/
  | record (job : Job) (started : Int) (attempt : Started)
  /-- About to report the batch that settled as it started. -/
  | report
  /-- Whether there is anything left to do. -/
  | idle
  /-- About to work out how long to sleep. -/
  | wait
  /-- In `waitSettled`. -/
  | poll (waitMs : Int)
  /-- `shared.cut()`: about to load the wait cap. -/
  | cutWait (after : Int)
  /-- `shared.cut()`: about to load the last answer's time, then to walk the slots. -/
  | cutAnswer (after : Int) (cap : Nat)
  /-- About to report what settled or ran out of time. -/
  | reportSettled (after : Int)
  | returned
  /-- The loop could not be set up. -/
  | failed

/-- Whether the loop's thread is over. -/
def Pc.finished : Pc Job → Bool
  | .returned => true
  | .failed => true
  | _ => false

/-- One loop's own variables. -/
structure LoopState (Job : Type*) where
  pc : Pc Job
  flight : Flight Job
  settled : List (Settled Job) := []
  held : Held Job := {}
  dry : Bool := false
  roomLeft : Bool := false
  batch : Nat := 0

/-- What the machine and the network answer at one step of a loop. -/
structure LoopEnv where
  now : Int := 0
  allocated : Bool := true
  attempt : Started := .done .filtered
  ready : Nat → Bool := fun _ => false
  verdict : Nat → Verdict := fun _ => .filtered
  stored : Nat → Bool := fun _ => true

namespace LoopState

variable (S : Source Job σ) (target : Job → Target)

/-- Head of the top-up `while`: a held connect whose pause is over, else one from the
source, unless the batch or the loop's room is used up. -/
def topUp (l : LoopState Job) (now : Int) : LoopState Job :=
  if l.flight.len < l.flight.capacity then
    if l.batch = startBatch then { l with roomLeft := true, pc := .report }
    else if l.held.due now then
      match l.held.pop with
      | some (job, held) => { l with held := held, pc := .start job now }
      | none => { l with pc := .report }
    else if !l.held.open then { l with pc := .report }
    else if !l.dry then { l with pc := .take now }
    else { l with pc := .noTarget now }
  else { l with pc := .report }

/-- What `start` answered. -/
def attempted (l : LoopState Job) (job : Job) (started : Int) : Started → LoopState Job
  | .unprobed shortage =>
    match l.held.hold job shortage started with
    | (true, held) => { l with held := held, batch := l.batch + 1, pc := .topUp }
    | (false, held) => { l with held := held, pc := .starving }
  | attempt => { l with pc := .wentOut job started attempt }

/-- File a connect that went out. -/
def recordStart (l : LoopState Job) (job : Job) (started now : Int) : Started → LoopState Job
  | .done verdict =>
    { l with
      settled := l.settled ++ [{
        job := job
        verdict := verdict
        elapsedUs := elapsedUs started now }]
      batch := l.batch + 1
      pc := .topUp }
  | .pending sock =>
    { l with
      flight := l.flight.add target job sock started
      batch := l.batch + 1
      pc := .topUp }
  -- `unreachable` in the source: `attempted` never hands such a start on
  | .unprobed _ => l

/-- Nothing in flight: pause while short, end once dry, else go round again. -/
def idle (l : LoopState Job) : LoopState Job :=
  if l.flight.len = 0 then
    if l.held.short then { l with pc := .head }
    else if l.dry ∧ l.held.jobs.length = 0 then { l with pc := .returned }
    else { l with pc := .head }
  else { l with pc := .wait }

/-- How long the loop sleeps in `waitSettled`. -/
def waitMs (l : LoopState Job) (cut : Cut) (now : Int) : Int :=
  let wake := l.flight.earliestWake target cut now
  let until_ := if l.held.short then min l.held.retryAt wake else wake
  if l.roomLeft then 0 else msUntil now until_

/-- One step of a loop, with what the environment answers at it. -/
def step (loops : Nat) (env : LoopEnv) (sh : Shared Job σ) (l : LoopState Job) :
    Option (Shared Job σ × LoopState Job) :=
  match l.pc with
  | .begin => some (sh, { l with pc := if env.allocated then .head else .failed })
  | .head =>
    -- the run is over once a loop starved: only the connects in flight still settle
    let l := if sh.starved then { l with held := {}, dry := true } else l
    some (sh, { l with roomLeft := false, batch := 0, pc := .topUp })
  | .topUp => some (sh, l.topUp env.now)
  | .take started =>
    match sh.take S loops l.flight.len with
    | (.job job, sh) => some (sh, { l with pc := .start job started })
    | (.full, sh) => some (sh, { l with pc := .report })
    | (.dry, sh) => some (sh, { l with dry := true, pc := .noTarget started })
  | .noTarget started =>
    match l.held.dropSuspect with
    | (some suspect, held) =>
      some (sh.unanswered S target suspect started, { l with held := held, pc := .report })
    | (none, held) => some (sh, { l with held := held, pc := .report })
  | .start job started => some (sh, l.attempted job started env.attempt)
  | .starving =>
    some ({ sh with starved := true },
      { l with held := {}, dry := true, batch := l.batch + 1, pc := .topUp })
  | .wentOut job started attempt =>
    match l.held.started with
    | (some suspect, held) =>
      some (sh.unanswered S target suspect started,
        { l with held := held, pc := .record job started attempt })
    | (none, held) => some (sh, { l with held := held, pc := .record job started attempt })
  | .record job started attempt => some (sh, l.recordStart target job started env.now attempt)
  | .report =>
    some (sh.done S target l.settled env.now env.stored, { l with settled := [], pc := .idle })
  | .idle => some (sh, l.idle)
  | .wait =>
    some (sh, { l with
      pc := .poll (l.waitMs target (cutOf sh.waitCapMs sh.lastCuttableAnswerNs) env.now) })
  | .poll _ =>
    some (sh, { l with flight := l.flight.markSettled env.ready, pc := .cutWait env.now })
  | .cutWait after => some (sh, { l with pc := .cutAnswer after sh.waitCapMs })
  | .cutAnswer after cap =>
    let walked := Flight.takeSettled target after (cutOf cap sh.lastCuttableAnswerNs) env.verdict
      l.flight.len l.flight l.settled
    some (sh, { l with flight := walked.1, settled := walked.2, pc := .reportSettled after })
  | .reportSettled after =>
    some (sh.done S target l.settled after env.stored, { l with settled := [], pc := .head })
  | .returned => none
  | .failed => none

/-- What one step of a loop can do, and when. -/
inductive Moves (loops : Nat) (env : LoopEnv) (sh : Shared Job σ) (l : LoopState Job) :
    Shared Job σ → LoopState Job → Prop
  | begin (hpc : l.pc = .begin) :
      Moves loops env sh l sh { l with pc := if env.allocated then .head else .failed }
  | head (hpc : l.pc = .head) :
      Moves loops env sh l sh { (if sh.starved then { l with held := {}, dry := true } else l) with
        roomLeft := false
        batch := 0
        pc := .topUp }
  | topUp (hpc : l.pc = .topUp) : Moves loops env sh l sh (l.topUp env.now)
  | takeJob {started : Int} {job : Job} {sh' : Shared Job σ} (hpc : l.pc = .take started)
      (htake : sh.take S loops l.flight.len = (.job job, sh')) :
      Moves loops env sh l sh' { l with pc := .start job started }
  | takeFull {started : Int} {sh' : Shared Job σ} (hpc : l.pc = .take started)
      (htake : sh.take S loops l.flight.len = (.full, sh')) :
      Moves loops env sh l sh' { l with pc := .report }
  | takeDry {started : Int} {sh' : Shared Job σ} (hpc : l.pc = .take started)
      (htake : sh.take S loops l.flight.len = (.dry, sh')) :
      Moves loops env sh l sh' { l with dry := true, pc := .noTarget started }
  | dropSuspect {started : Int} {suspect : Job} {held : Held Job} (hpc : l.pc = .noTarget started)
      (hdrop : l.held.dropSuspect = (some suspect, held)) :
      Moves loops env sh l (sh.unanswered S target suspect started)
        { l with held := held, pc := .report }
  | noSuspect {started : Int} {held : Held Job} (hpc : l.pc = .noTarget started)
      (hdrop : l.held.dropSuspect = (none, held)) :
      Moves loops env sh l sh { l with held := held, pc := .report }
  | start {job : Job} {started : Int} (hpc : l.pc = .start job started) :
      Moves loops env sh l sh (l.attempted job started env.attempt)
  | starving (hpc : l.pc = .starving) :
      Moves loops env sh l { sh with starved := true }
        { l with held := {}, dry := true, batch := l.batch + 1, pc := .topUp }
  | clearSuspect {job suspect : Job} {started : Int} {attempt : Started} {held : Held Job}
      (hpc : l.pc = .wentOut job started attempt) (hclear : l.held.started = (some suspect, held)) :
      Moves loops env sh l (sh.unanswered S target suspect started)
        { l with held := held, pc := .record job started attempt }
  | clear {job : Job} {started : Int} {attempt : Started} {held : Held Job}
      (hpc : l.pc = .wentOut job started attempt) (hclear : l.held.started = (none, held)) :
      Moves loops env sh l sh { l with held := held, pc := .record job started attempt }
  | record {job : Job} {started : Int} {attempt : Started}
      (hpc : l.pc = .record job started attempt) :
      Moves loops env sh l sh (l.recordStart target job started env.now attempt)
  | report (hpc : l.pc = .report) :
      Moves loops env sh l (sh.done S target l.settled env.now env.stored)
        { l with settled := [], pc := .idle }
  | idle (hpc : l.pc = .idle) : Moves loops env sh l sh l.idle
  | wait (hpc : l.pc = .wait) :
      Moves loops env sh l sh { l with
        pc := .poll (l.waitMs target (cutOf sh.waitCapMs sh.lastCuttableAnswerNs) env.now) }
  | poll {waitMs : Int} (hpc : l.pc = .poll waitMs) :
      Moves loops env sh l sh
        { l with flight := l.flight.markSettled env.ready, pc := .cutWait env.now }
  | cutWait {after : Int} (hpc : l.pc = .cutWait after) :
      Moves loops env sh l sh { l with pc := .cutAnswer after sh.waitCapMs }
  | cutAnswer {after : Int} {cap : Nat} (hpc : l.pc = .cutAnswer after cap) :
      Moves loops env sh l sh { l with
        flight := (Flight.takeSettled target after (cutOf cap sh.lastCuttableAnswerNs) env.verdict
          l.flight.len l.flight l.settled).1
        settled := (Flight.takeSettled target after (cutOf cap sh.lastCuttableAnswerNs)
          env.verdict l.flight.len l.flight l.settled).2
        pc := .reportSettled after }
  | reportSettled {after : Int} (hpc : l.pc = .reportSettled after) :
      Moves loops env sh l (sh.done S target l.settled after env.stored)
        { l with settled := [], pc := .head }

variable {S target}

/-- **A step is one of these moves.** -/
theorem step_moves {loops : Nat} {env : LoopEnv} {sh sh' : Shared Job σ} {l l' : LoopState Job}
    (hs : l.step S target loops env sh = some (sh', l')) :
    Moves S target loops env sh l sh' l' := by
  unfold LoopState.step at hs
  split at hs
  · next hpc =>
    cases hs
    exact .begin hpc
  · next hpc =>
    cases hs
    exact .head hpc
  · next hpc =>
    cases hs
    exact .topUp hpc
  · next hpc =>
    split at hs
    · next htake =>
      cases hs
      exact .takeJob hpc htake
    · next htake =>
      cases hs
      exact .takeFull hpc htake
    · next htake =>
      cases hs
      exact .takeDry hpc htake
  · next hpc =>
    split at hs
    · next hdrop =>
      cases hs
      exact .dropSuspect hpc hdrop
    · next hdrop =>
      cases hs
      exact .noSuspect hpc hdrop
  · next hpc =>
    cases hs
    exact .start hpc
  · next hpc =>
    cases hs
    exact .starving hpc
  · next hpc =>
    split at hs
    · next hclear =>
      cases hs
      exact .clearSuspect hpc hclear
    · next hclear =>
      cases hs
      exact .clear hpc hclear
  · next hpc =>
    cases hs
    exact .record hpc
  · next hpc =>
    cases hs
    exact .report hpc
  · next hpc =>
    cases hs
    exact .idle hpc
  · next hpc =>
    cases hs
    exact .wait hpc
  · next hpc =>
    cases hs
    exact .poll hpc
  · next hpc =>
    cases hs
    exact .cutWait hpc
  · next hpc =>
    cases hs
    exact .cutAnswer hpc
  · next hpc =>
    cases hs
    exact .reportSettled hpc
  · cases hs
  · cases hs

/-- **A step touches what is shared at most once**: it takes a connect, reports a batch, or says
that the loop starved. -/
theorem step_shared {loops : Nat} {env : LoopEnv} {sh sh' : Shared Job σ} {l l' : LoopState Job}
    (hs : l.step S target loops env sh = some (sh', l')) :
    sh' = sh ∨ sh' = (sh.take S loops l.flight.len).2 ∨
      (∃ settled now stored, sh' = sh.done S target settled now stored) ∨
      l.pc = .starving ∧ sh' = { sh with starved := true } := by
  cases step_moves hs with
  | takeJob hpc htake | takeFull hpc htake | takeDry hpc htake =>
    exact Or.inr (Or.inl (by rw [htake]))
  | dropSuspect | clearSuspect | report | reportSettled =>
    exact Or.inr (Or.inr (Or.inl ⟨_, _, _, rfl⟩))
  | starving hpc => exact Or.inr (Or.inr (Or.inr ⟨hpc, rfl⟩))
  | _ => exact Or.inl rfl

end LoopState

/-! ## The whole run -/

/-- How a run ends. -/
inductive RunResult where
  | ok
  | outOfSockets
  | outOfMemory
deriving DecidableEq, Repr

/-- Where `run` itself stands: with its loops, confirming what they left, or back. -/
inductive Main (Job : Type*) where
  | joining
  | confirming (todo : List Job)
  | returned (result : RunResult)
deriving DecidableEq, Repr

/-- What the machine and the network answer while `run` confirms one connect: when each
`start` was made and what it gave, what `finish` found, and when it began and ended. -/
structure MainEnv where
  started : Int := 0
  attempts : List (Int × Started) := []
  verdict : Verdict := .filtered
  finished : Int := 0

/-- The tries of `connectOnce` at starting its connect, `first` being when the first was
made; none when the answers given do not bring it to an end. -/
def connectTries (first : Int) (verdict : Verdict) : List (Int × Started) → Option Outcome
  | [] => none
  | (_, .done v) :: _ => some v.alone
  | (_, .pending _) :: _ => some verdict.alone
  | (started, .unprobed shortage) :: rest =>
    if shortage = .address ∨ stallLimitNs ≤ started - first then some .filtered
    else connectTries first verdict rest

/-- Connect to one target and wait for its verdict, with nothing else in flight. -/
def connectOnce (env : MainEnv) : Option Outcome :=
  match env.attempts with
  | [] => none
  | (first, attempt) :: rest => connectTries first env.verdict ((first, attempt) :: rest)

/-- A run: what is shared, its loops, and the thread that called it. -/
structure Engine (Job σ : Type*) (n : Nat) where
  shared : Shared Job σ
  loops : Fin n → LoopState Job
  main : Main Job

/-- Who moves, and what it is answered. -/
inductive EngineLabel (n : Nat) where
  | loop (i : Fin n) (env : LoopEnv)
  | main (env : MainEnv)

namespace Engine

variable (S : Source Job σ) (target : Job → Target) (u : Setup)

/-- The run before anything happened, over a source in state `source`. -/
def start (source : σ) : Engine Job σ u.loops where
  shared := { source := source, window := u.window }
  loops _ := { pc := .begin, flight := { capacity := u.capacity } }
  main := .joining

/-- One step of the thread that called `run`, once its loops are over. -/
def mainStep (env : MainEnv) (e : Engine Job σ u.loops) : Option (Engine Job σ u.loops) :=
  match e.main with
  | .joining =>
    if ∀ i, (e.loops i).pc.finished then
      match (e.loops ⟨0, u.loops_pos⟩).pc with
      | .failed => some { e with main := .returned .outOfMemory }
      | _ =>
        if e.shared.starved then some { e with main := .returned .outOfSockets }
        else some { e with main := .confirming e.shared.unconfirmed }
    else none
  | .confirming [] => some { e with main := .returned .ok }
  | .confirming (job :: todo) =>
    match connectOnce env with
    | none => none
    | some outcome =>
      some { e with
        shared := e.shared.sourceDone S job outcome (elapsedUs env.started env.finished)
        main := .confirming todo }
  | .returned _ => none

/-- One step of the run. -/
def step (e : Engine Job σ u.loops) : EngineLabel u.loops → Option (Engine Job σ u.loops)
  | .loop i env =>
    match (e.loops i).step S target u.loops env e.shared with
    | none => none
    | some (sh, l) => some { e with shared := sh, loops := Function.update e.loops i l }
  | .main env => e.mainStep S u env

end Engine

/-- `connects.run` over a source that starts in `source`. -/
def engine (S : Source Job σ) (target : Job → Target) (u : Setup) (source : σ) :
    Lts (Engine Job σ u.loops) (EngineLabel u.loops) where
  init e := e = Engine.start u source
  step e l := e.step S target u l

end NetScanner.Connects
