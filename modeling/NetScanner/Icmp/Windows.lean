import NetScanner.Infra.FreeList
import NetScanner.Icmp.Sweep

/-!
# `icmp_ping_sweep` on Windows

`src/c/icmp_ping.c`, Windows half. Windows does the pinging: `IcmpSendEcho2` is handed a slot
of the sweep's pool and answers later through `on_reply`, on the sweep's own thread but only
inside an alertable wait, or on the spot.

`requests` is what Windows has in hand. A request holds the slot it was handed as context and
writes its answer to that slot's buffer; the host it was sent for is what the log goes by and
`on_reply` does not see it. The clock moves between any two steps.
-/

namespace NetScanner.Icmp

open Infra
open Net (Ip)

/-- `IP_SUCCESS` -/
def ipSuccess : Nat := 0

/-- A reply buffer, as `IcmpParseReplies` and `is_answer` read it. -/
structure IcmpEchoReply where
  /-- How many replies `IcmpParseReplies` found. -/
  replies : Nat
  status : Nat
  address : Ip
deriving DecidableEq, Repr

/-- One slot of the pool. Its reply buffer is written by Windows alone. -/
structure Slot where
  index : Nat := 0
  nextFree : Option Nat := none

/-- An echo Windows has in hand. -/
structure Request where
  slot : Nat
  dest : Ip
  payloadIndex : UInt32
  timeoutMs : UInt32
  /-- The host it was sent for. -/
  host : Nat

/-- What a call of `icmp_ping_sweep` is given. -/
structure WinConfig where
  ips : List Ip
  timeoutMs : Int
  maxInFlightArg : Nat
  count_lt : ips.length < 2 ^ 64
  max_lt : maxInFlightArg < 2 ^ 64

namespace WinConfig

def count (c : WinConfig) : Nat := c.ips.length

/-- `max_in_flight` once the sweep settled on it. -/
def maxInFlight (c : WinConfig) : Nat :=
  let m := if c.maxInFlightArg = 0 then 1 else c.maxInFlightArg
  if c.count < m then c.count else m

end WinConfig

/-- What happened. -/
inductive WinEvent where
  /-- An echo for host `index` was handed to Windows, with `slot` as its context. -/
  | echo (index slot : Nat)
  /-- Windows is through with the echo for host `index`: with a reply, or refused on the spot. -/
  | finished (index : Nat) (reply : Option IcmpEchoReply)
  /-- `observer.pinged` -/
  | pinged (index : Nat) (answered : Bool)
  /-- `observer.stop_requested` said so. -/
  | stopSeen
deriving DecidableEq, Repr

inductive WinPc where
  | begin
  /-- Head of `for (;;)`: about to ask for a stop request. -/
  | head
  /-- About to read the clock for the send budget. -/
  | budget
  /-- Head of the send `while`. -/
  | send
  | endCheck
  /-- In `alertable_wait`. -/
  | wait (ms : Nat)
  | returned (result : SweepResult)
deriving DecidableEq

/-- A sweep under way. -/
structure WinSweep where
  clock : Int
  pc : WinPc := .begin
  slots : Nat → Slot := fun _ => {}
  freeSlots : Option Nat := none
  inFlight : Nat := 0
  hosts : List HostState
  next : Nat := 0
  stopped : Bool := false
  started : Int := 0
  sendsLeft : Nat := 0
  requests : List Request := []
  log : List (Int × WinEvent) := []

/-- How `IcmpSendEcho2` came back. -/
inductive SentEcho where
  /-- `ERROR_IO_PENDING` -/
  | pending
  /-- Any other error. -/
  | refused
  /-- Finished on the spot, with a reply in the buffer. -/
  | replied (reply : IcmpEchoReply)

/-- What the machine and the observer answer at one step of the sweep. -/
structure WinEnv where
  /-- `IcmpCreateFile` gave a handle. -/
  created : Bool := true
  allocated : Bool := true
  stop : Bool := false
  sent : SentEcho := .pending

/-- Who moves: the clock, a completion routine, or the sweep. -/
inductive WinLabel where
  | tick (ms : Nat)
  | complete (k : Nat) (reply : IcmpEchoReply)
  | run (env : WinEnv)

/-- The pool linked up: each slot before the one linked last. -/
def linkSlots : Nat → (Nat → Slot) × Option Nat
  | 0 => (fun _ => {}, none)
  | n + 1 =>
    let (slots, free) := linkSlots n
    (Function.update slots n { slots n with nextFree := free }, some n)

namespace WinSweep

variable (c : WinConfig)

def init (clock : Int) : WinSweep where
  clock := clock
  hosts := List.replicate c.count .waiting

/-- Note what happens now. -/
def note (s : WinSweep) (e : WinEvent) : WinSweep := { s with log := s.log ++ [(s.clock, e)] }

def report (s : WinSweep) (index : Nat) (answered : Bool) : WinSweep :=
  { s with hosts := s.hosts.set index .reported }.note (.pinged index answered)

def release (s : WinSweep) (sl : Nat) : WinSweep :=
  { s with
    slots := Function.update s.slots sl { s.slots sl with nextFree := s.freeSlots }
    freeSlots := some sl
    inFlight := sizeDec s.inFlight }

/-- An echo reply from the host itself, of status `IP_SUCCESS`. -/
def isAnswer (s : WinSweep) (sl : Nat) (reply : IcmpEchoReply) : Bool :=
  reply.replies ≠ 0 && reply.status == ipSuccess && c.ips[(s.slots sl).index]? == some reply.address

def onReply (s : WinSweep) (sl : Nat) (reply : IcmpEchoReply) : WinSweep :=
  (s.report (s.slots sl).index (s.isAnswer c sl reply)).release sl

/-- Everything before the loop. -/
def begin (env : WinEnv) (s : WinSweep) : WinSweep :=
  if c.count = 0 then { s with pc := .returned .done }
  else if env.created = false then { s with pc := .returned .unavailable }
  else if env.allocated = false then { s with pc := .returned .noMemory }
  else
    { s with
      slots := (linkSlots c.maxInFlight).1
      freeSlots := (linkSlots c.maxInFlight).2
      started := s.clock
      pc := .head }

def stopCheck (env : WinEnv) (s : WinSweep) : WinSweep :=
  if s.stopped = false ∧ env.stop = true then
    { s.note .stopSeen with stopped := true, pc := .budget }
  else { s with pc := .budget }

/-- Take slot `sl` off the free list, for the host that is next. -/
def claim (s : WinSweep) (sl : Nat) : WinSweep :=
  { s with
    freeSlots := (s.slots sl).nextFree
    inFlight := sizeInc s.inFlight
    slots := Function.update s.slots sl { s.slots sl with index := s.next }
    hosts := s.hosts.set s.next .inFlight
    next := s.next + 1
    sendsLeft := s.sendsLeft - 1 }.note (.echo s.next sl)

/-- What Windows is handed for host `i`. -/
def request (i sl : Nat) : Request where
  slot := sl
  dest := c.ips.getD i (0, 0, 0, 0)
  payloadIndex := UInt32.ofNat i
  timeoutMs := UInt32.ofNat (c.timeoutMs % 2 ^ 32).toNat
  host := i

/-- One turn of the send `while`. -/
def send (env : WinEnv) (s : WinSweep) : WinSweep :=
  match s.freeSlots with
  | none => { s with pc := .endCheck }
  | some sl =>
    if s.stopped = false ∧ s.next < c.count ∧ 0 < s.sendsLeft then
      match env.sent with
      | .pending => { s.claim sl with requests := s.requests ++ [request c s.next sl] }
      -- no completion routine will run
      | .refused =>
        let s' := (s.claim sl).note (.finished s.next none)
        (s'.report (s'.slots sl).index false).release sl
      | .replied reply => ((s.claim sl).note (.finished s.next (some reply))).onReply c sl reply
    else { s with pc := .endCheck }

def endCheck (s : WinSweep) : WinSweep :=
  if s.inFlight = 0 ∧ (s.stopped = true ∨ s.next = c.count) then
    { s with pc := .returned .done }
  else if s.stopped = false ∧ s.next < c.count ∧ s.freeSlots ≠ none then
    { s with pc := .wait 1 }
  else { s with pc := .wait 50 }

/-- One step of the sweep itself. -/
def run (env : WinEnv) (s : WinSweep) : Option WinSweep :=
  match s.pc with
  | .begin => some (s.begin c env)
  | .head => some (s.stopCheck env)
  | .budget => some { s with sendsLeft := sendBudget (s.clock - s.started) s.next, pc := .send }
  | .send => some (s.send c env)
  | .endCheck => some (s.endCheck c)
  | .wait _ => some { s with pc := .head }
  | .returned _ => none

/-- Windows is through with request `k`, and its completion routine runs. -/
def complete (s : WinSweep) (k : Nat) (reply : IcmpEchoReply) : Option WinSweep :=
  match s.pc, s.requests[k]? with
  | .wait _, some r =>
    let s' := { s with requests := s.requests.eraseIdx k }.note (.finished r.host (some reply))
    some (s'.onReply c r.slot reply)
  | _, _ => none

/-- One step: time passes, an echo is through, or the sweep goes on. -/
def step (s : WinSweep) : WinLabel → Option WinSweep
  | .tick ms => some { s with clock := s.clock + ms }
  | .complete k reply => s.complete c k reply
  | .run env => s.run c env

end WinSweep

/-- The sweep as a transition system. It may start at any time. -/
def winSweep (c : WinConfig) : Lts WinSweep WinLabel where
  init s := ∃ clock, s = WinSweep.init c clock
  step s l := s.step c l

end NetScanner.Icmp
