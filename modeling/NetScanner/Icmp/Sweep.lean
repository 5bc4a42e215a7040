import NetScanner.Infra.Lts
import NetScanner.Icmp.Echo
import Mathlib.Algebra.Ring.Int.Defs

/-!
# `icmp_ping_sweep` on Linux and macOS

`src/c/icmp_ping.c`. The sweep is one thread with a program counter (`Pc`); the sockets'
queues and the clock belong to the environment, which may move between any two of its steps
(`tick`, `arrive`): callbacks, sends and system calls take any amount of time. What a system
call or a callback answers at a step is in its label (`SweepEnv`).

`Core` is the part of the state that says what happened to the hosts, with a timestamped
log of it; `SweepState` adds the sweep's own variables.

Clock values are `Int` milliseconds. Counters of type `size_t` wrap at `2 ^ 64`.
-/

namespace NetScanner.Icmp

open Infra

def sendsPerMs : Nat := 2
def echoesPerSocket : Nat := 32
def maxSockets : Nat := 16
def busyGiveUpMs : Int := 5000

inductive HostState where
  | waiting
  | inFlight
  | reported
deriving DecidableEq, Repr

inductive SendOutcome where
  | ok
  | busy
  | failed
deriving DecidableEq, Repr

inductive SweepResult where
  | done
  | unavailable
  | noMemory
deriving DecidableEq, Repr

/-- What happened, as far as hosts and sockets go. -/
inductive SweepEvent where
  /-- An echo to host `index` was handed to the sockets, with this result. -/
  | echo (index : Nat) (outcome : SendOutcome)
  /-- A datagram came into the queue of one of the sweep's sockets. -/
  | arrived (sock : Nat) (d : Datagram)
  /-- The sweep read a datagram. -/
  | received (sock : Nat) (d : Datagram)
  /-- The sweep found a socket with nothing to read. -/
  | empty (sock : Nat)
  /-- `observer.pinged` -/
  | pinged (index : Nat) (answered : Bool)
  /-- `observer.stop_requested` said so. -/
  | stopSeen
deriving DecidableEq, Repr

/-- Add one to a `size_t`. -/
def sizeInc (n : Nat) : Nat := (n + 1) % 2 ^ 64

/-- Take one from a `size_t`. -/
def sizeDec (n : Nat) : Nat := (n + (2 ^ 64 - 1)) % 2 ^ 64

/-- How many more echoes the send rate allows. -/
def sendBudget (elapsedMs : Int) (sent : Nat) : Nat :=
  let allowed := ((elapsedMs + 1) % 2 ^ 64).toNat * sendsPerMs % 2 ^ 64
  if sent < allowed then allowed - sent else 0

/-- The hosts of a sweep, its cursors, its sockets and its log. -/
structure Core where
  clock : Int
  /-- What each socket has to read, oldest first. -/
  queues : Nat → List Datagram := fun _ => []
  next : Nat := 0
  oldest : Nat := 0
  inFlight : Nat := 0
  stopped : Bool := false
  hosts : List HostState
  log : List (Int × SweepEvent) := []

namespace Core

/-- Note what happens now. -/
def note (k : Core) (events : List SweepEvent) : Core :=
  { k with log := k.log ++ events.map fun event => (k.clock, event) }

def setHost (k : Core) (i : Nat) (h : HostState) : Core := { k with hosts := k.hosts.set i h }

/-- `report` -/
def report (k : Core) (i : Nat) (answered : Bool) : Core :=
  (k.setHost i .reported).note [.pinged i answered]

end Core

/-- Where the sweep stands. -/
inductive Pc where
  /-- About to open sockets and allocate. -/
  | begin
  /-- Head of `for (;;)`: about to read the clock. -/
  | head
  /-- Head of the expiry `while`. -/
  | expire
  /-- About to ask for a stop request. -/
  | stopCheck
  /-- Head of the send `while`. -/
  | send
  /-- Whether the sweep is over. -/
  | endCheck
  /-- In `poll`. -/
  | poll (waitMs : Int)
  /-- About to look at socket `sock`, of those `poll` found readable. -/
  | drain (sock : Nat) (readable : Nat → Bool)
  | returned (result : SweepResult)

/-- A sweep under way. -/
structure SweepState extends Core where
  pc : Pc
  nsocks : Nat := 0
  started : Int := 0
  now : Int := 0
  busy : Bool := false
  busySince : Int := -1
  budget : Nat := 0
  sentAt : Nat → Int

/-- How `poll` came back. -/
inductive Polled where
  /-- Some socket has data (or an error) to hand over. -/
  | ready
  /-- The wait ended with nothing to read anywhere. -/
  | timedOut
  /-- `EINTR` -/
  | interrupted
deriving DecidableEq, Repr

/-- How `recvfrom` came back. -/
inductive Received where
  | datagram
  /-- `EINTR` -/
  | interrupted
  /-- `EAGAIN`, or an error of the socket. -/
  | failed
deriving DecidableEq, Repr

/-- What the machine, the network and the observer answer at one step of the sweep. -/
structure SweepEnv where
  /-- How many `open_socket` succeed in a row. -/
  opened : Nat := 16
  allocated : Bool := true
  stop : Bool := false
  /-- What a send on each socket gives. -/
  sends : Nat → SendOutcome := fun _ => .ok
  polled : Polled := .ready
  received : Received := .failed

/-- Who moves: the clock, the network, or the sweep. -/
inductive SweepLabel where
  | tick (ms : Nat)
  | arrive (sock : Nat) (d : Datagram)
  | run (env : SweepEnv)

namespace SweepState

variable (c : SweepConfig)

def init (clock : Int) : SweepState where
  clock := clock
  hosts := List.replicate c.count .waiting
  pc := .begin
  sentAt := c.garbage

/-- How many sockets a sweep asks for. -/
def wantedSockets : Nat :=
  min ((c.maxInFlight + echoesPerSocket - 1) % 2 ^ 64 / echoesPerSocket) maxSockets

/-- Everything before the loop. -/
def begin (env : SweepEnv) (s : SweepState) : SweepState :=
  if c.count = 0 then { s with pc := .returned .done }
  else
    let nsocks := min env.opened (wantedSockets c)
    if nsocks = 0 then { s with pc := .returned .unavailable }
    else if env.allocated = false then { s with pc := .returned .noMemory }
    else { s with nsocks := nsocks, started := s.clock, pc := .head }

/-- One turn of the expiry `while`: hosts whose wait is over, oldest first. -/
def expire (s : SweepState) : SweepState :=
  if s.oldest < s.next then
    if s.hosts[s.oldest]? = some .inFlight then
      if s.now < s.sentAt s.oldest + c.timeoutMs then { s with pc := .stopCheck }
      else
        let k := s.toCore.report s.oldest false
        { s with toCore := { k with inFlight := sizeDec s.inFlight, oldest := s.oldest + 1 } }
    else { s with oldest := s.oldest + 1 }
  else { s with pc := .stopCheck }

def stopCheck (env : SweepEnv) (s : SweepState) : SweepState :=
  let s := if s.stopped = false ∧ env.stop = true then
      { s with toCore := { s.toCore.note [.stopSeen] with stopped := true } }
    else s
  { s with
    busy := false
    budget := sendBudget (s.now - s.started) s.next
    pc := .send }

/-- Round robin from socket `first`, until one is not full. -/
def sendRound (sends : Nat → SendOutcome) (nsocks first : Nat) : Nat → SendOutcome
  | 0 => .busy
  | rounds + 1 =>
    match sends ((first + (nsocks - (rounds + 1))) % nsocks) with
    | .busy => sendRound sends nsocks first rounds
    | outcome => outcome

/-- One turn of the send `while`. -/
def send (env : SweepEnv) (s : SweepState) : SweepState :=
  if s.stopped = false ∧ s.next < c.count ∧ s.inFlight < c.maxInFlight ∧ 0 < s.budget then
    let outcome := sendRound env.sends s.nsocks s.next s.nsocks
    let i := s.next
    let s := { s with toCore := s.toCore.note [.echo i outcome] }
    let s := if outcome = .busy ∧ s.busySince < 0 then { s with busySince := s.now } else s
    if outcome = .busy ∧ s.now - s.busySince < busyGiveUpMs then
      { s with busy := true, pc := .endCheck }
    else if outcome = .ok then
      { s with
        toCore := { s.toCore.setHost i .inFlight with
          inFlight := sizeInc s.inFlight
          next := i + 1 }
        sentAt := Function.update s.sentAt i s.now
        busySince := -1
        budget := s.budget - 1 }
    else
      { s with
        toCore := { s.toCore.report i false with next := i + 1 }
        busySince := -1
        budget := s.budget - 1 }
  else { s with pc := .endCheck }

/-- How long the sweep sleeps: until the oldest echo's wait ends, or one pacing step when
more can go out now. -/
def waitMs (s : SweepState) : Int :=
  let wait := if s.oldest < s.next then
      Int.bmod (s.sentAt s.oldest + c.timeoutMs - s.now) (2 ^ 32)
    else c.timeoutMs
  let wait := if s.stopped = false ∧ s.next < c.count ∧
      (s.busy = true ∨ s.inFlight < c.maxInFlight) then 1 else wait
  max wait 0

def endCheck (s : SweepState) : SweepState :=
  if s.inFlight = 0 ∧ (s.stopped = true ∨ s.next = c.count) then
    { s with pc := .returned .done }
  else { s with pc := .poll (s.waitMs c) }

def poll (env : SweepEnv) (s : SweepState) : Option SweepState :=
  match env.polled with
  | .interrupted => some { s with pc := .head }
  | .timedOut =>
    if ∀ k < s.nsocks, s.queues k = [] then
      some { s with
        toCore := s.toCore.note ((List.range s.nsocks).map .empty)
        pc := .head }
    else none
  | .ready => some { s with pc := .drain 0 fun k => !(s.queues k).isEmpty }

/-- One `recvfrom` on socket `k`. -/
def receive (env : SweepEnv) (s : SweepState) (k : Nat) (readable : Nat → Bool) :
    Option SweepState :=
  match env.received, s.queues k with
  | .interrupted, _ => some s
  | .datagram, [] => none
  | .datagram, d :: rest =>
    let s := { s with
      toCore := { s.toCore.note [.received k d] with queues := Function.update s.queues k rest } }
    match matchReply c d with
    | none => some s
    | some i =>
      if s.hosts[i]? = some .inFlight then
        some { s with
          toCore := { s.toCore.report i true with inFlight := sizeDec s.inFlight } }
      else some s
  | .failed, [] => some { s with toCore := s.toCore.note [.empty k], pc := .drain (k + 1) readable }
  | .failed, _ :: _ => some { s with pc := .drain (k + 1) readable }

/-- One step of the sweep itself. -/
def run (env : SweepEnv) (s : SweepState) : Option SweepState :=
  match s.pc with
  | .begin => some (s.begin c env)
  | .head => some { s with now := s.clock, pc := .expire }
  | .expire => some (s.expire c)
  | .stopCheck => some (s.stopCheck env)
  | .send => some (s.send c env)
  | .endCheck => some (s.endCheck c)
  | .poll _ => s.poll env
  | .drain k readable =>
    if k < s.nsocks then
      if readable k then s.receive c env k readable
      else some { s with pc := .drain (k + 1) readable }
    else some { s with pc := .head }
  | .returned _ => none

/-- One step: time passes, a datagram comes in, or the sweep goes on. -/
def step (s : SweepState) : SweepLabel → Option SweepState
  | .tick ms => some { s with clock := s.clock + ms }
  | .arrive k d =>
    if k < s.nsocks then
      some { s with
        toCore := { s.toCore.note [.arrived k d] with
          queues := Function.update s.queues k (s.queues k ++ [d]) } }
    else none
  | .run env => s.run c env

end SweepState

/-- The sweep as a transition system. It may start at any time. -/
def sweep (c : SweepConfig) : Lts SweepState SweepLabel where
  init s := ∃ clock, s = SweepState.init c clock
  step s l := s.step c l

end NetScanner.Icmp
