import NetScanner.Icmp.Pinger

/-!
# `pingSweep`

`src/core/scanner.zig`: ping a list of hosts from inside the process (`icmpSweep`), or with
ping(1) where the system does not allow that, in waves of processes (`pingWave`).

The main thread is at a `PingPc`. In a wave every process has a waiter: a thread of its own, or
the main thread when no thread could start. The waiters of a wave live in an array on the main
thread's stack, which the threads point into; the model keeps the array of the last wave.
`pinged` are the calls of `observer.pinged`.
-/

namespace NetScanner.Hosts

open Icmp Infra

def maxPingProcesses : Nat := 256

/-- How a process ended. -/
inductive Term where
  | exited (code : UInt8)
  /-- By a signal, or in a way nobody knows. -/
  | other
deriving DecidableEq, Repr

inductive WaiterState where
  /-- Its process has not been waited for. -/
  | running
  /-- `child.wait` came back. -/
  | ended (answered : Bool)
  | reported
deriving DecidableEq, Repr

structure Waiter where
  index : Nat
  /-- Whether it has a thread of its own. -/
  threaded : Bool := false
  state : WaiterState := .running
deriving DecidableEq, Repr

inductive PingResult where
  | alive
  | outOfMemory
  /-- The error of a spawn. -/
  | spawnFailed
deriving DecidableEq, Repr

/-- Where the main thread is. -/
inductive PingPc (σ : Type) where
  /-- About to allocate `alive`. -/
  | begin
  /-- In `icmpSweep`. -/
  | icmp (sweep : σ)
  /-- Head of `while`. -/
  | waves
  /-- Head of the loop that spawns, at host `index`. -/
  | spawn (index : Nat)
  /-- About to start the thread of waiter `k`. -/
  | start (k : Nat)
  /-- About to join waiter `k`, or to do its work. -/
  | join (k : Nat)
  | returned (result : PingResult)

/-- A sweep under way, over a list of `count` hosts. -/
structure PingSweep {count : Nat} (P : Pinger count) where
  pc : PingPc P.State := .begin
  /-- As `@memset` leaves it. -/
  alive : List Bool := List.replicate count false
  first : Nat := 0
  /-- What the last `pingWave` was called with. -/
  waveFirst : Nat := 0
  waveLast : Nat := 0
  waiters : List Waiter := []
  spawnError : Bool := false
  /-- Whether a look at the stop flag has found it set. -/
  stopSeen : Bool := false
  pinged : List (Nat × Bool) := []

/-- What the machine answers at one step of the main thread. -/
structure PingEnv where
  clock : Int := 0
  allocated : Bool := true
  stop : Bool := false
  spawned : Bool := true
  threaded : Bool := true

/-- Who moves: the main thread, the sweep it called, or a waiter. -/
inductive PingLabel {count : Nat} (P : Pinger count) where
  | main (env : PingEnv)
  | icmp (l : P.Label)
  /-- `term` is how the process ended, or none when `wait` failed. -/
  | waiter (k : Nat) (term : Option Term)

namespace PingSweep

variable {count : Nat} {P : Pinger count}

/-- `Context.pinged` and `Waiter.wait`: a host's fate goes to `alive`, then to the observer. -/
def note (s : PingSweep P) (p : Nat × Bool) : PingSweep P :=
  { s with alive := s.alive.set p.1 p.2, pinged := s.pinged ++ [p] }

def mainStep (env : PingEnv) (s : PingSweep P) : Option (PingSweep P) :=
  match s.pc with
  | .begin =>
    if env.allocated then some { s with pc := .icmp (P.call env.clock) }
    else some { s with pc := .returned .outOfMemory }
  | .icmp sweep =>
    match P.result sweep with
    | none => none
    | some .done => some { s with pc := .returned .alive }
    | some .unavailable => some { s with pc := .waves }
    | some .noMemory => some { s with pc := .returned .outOfMemory }
  | .waves =>
    if s.first < count then
      if env.stop then some { s with pc := .returned .alive, stopSeen := true }
      else
        some { s with
          pc := .spawn s.first
          waveFirst := s.first
          waveLast := min (s.first + maxPingProcesses) count
          waiters := []
          spawnError := false }
    else some { s with pc := .returned .alive }
  | .spawn index =>
    if index < s.waveLast then
      if env.stop then some { s with pc := .start 0, stopSeen := true }
      else if env.spawned = false then some { s with pc := .start 0, spawnError := true }
      else some { s with pc := .spawn (index + 1), waiters := s.waiters ++ [{ index := index }] }
    else some { s with pc := .start 0 }
  | .start k =>
    match s.waiters[k]? with
    | none => some { s with pc := .join 0 }
    | some w =>
      some { s with
        pc := .start (k + 1)
        waiters := s.waiters.set k { w with threaded := env.threaded } }
  | .join k =>
    match s.waiters[k]? with
    | none =>
      if s.spawnError then some { s with pc := .returned .spawnFailed }
      else some { s with pc := .waves, first := s.waveLast }
    | some w => if w.state = .reported then some { s with pc := .join (k + 1) } else none
  | .returned _ => none

/-- A step of `icmp_ping_sweep`, with the calls of its observer. -/
def icmpStep (l : P.Label) (s : PingSweep P) : Option (PingSweep P) :=
  match s.pc with
  | .icmp sweep =>
    (P.lts.step sweep l).map fun sweep' =>
      let s' := ((P.reports sweep').drop (P.reports sweep).length).foldl note s
      { s' with pc := .icmp sweep', stopSeen := P.stopped sweep' }
  | _ => none

/-- Whoever runs waiter `k` does so now: its own thread, or the main thread at its turn. -/
def runs (s : PingSweep P) (k : Nat) (w : Waiter) : Bool :=
  w.threaded || match s.pc with
    | .join j => j == k
    | _ => false

/-- A step of `Waiter.wait`. -/
def waiterStep (k : Nat) (term : Option Term) (s : PingSweep P) : Option (PingSweep P) :=
  match s.waiters[k]? with
  | none => none
  | some w =>
    if s.runs k w then
      match w.state with
      | .running =>
        let answered := term == some (.exited 0)
        some { s with waiters := s.waiters.set k { w with state := .ended answered } }
      | .ended answered =>
        some { s.note (w.index, answered) with
          waiters := s.waiters.set k { w with state := .reported } }
      | .reported => none
    else none

def step (s : PingSweep P) : PingLabel P → Option (PingSweep P)
  | .main env => s.mainStep env
  | .icmp l => s.icmpStep l
  | .waiter k term => s.waiterStep k term

end PingSweep

/-- `pingSweep` as a transition system. -/
def pingSweep {count : Nat} (P : Pinger count) : Lts (PingSweep P) (PingLabel P) where
  init s := s = {}
  step := PingSweep.step

end NetScanner.Hosts
