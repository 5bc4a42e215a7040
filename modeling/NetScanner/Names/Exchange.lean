import NetScanner.Infra.Handles
import NetScanner.Infra.Lts
import NetScanner.Net.Address

/-!
# The UDP exchanges of a host

`src/c/resolver.c`, `udp_exchange_all`, with `ns_wait_any` of `src/c/ns_socket.h`: the queries of
one host go out at once, each on its own socket, and share one wait.

The program counter says which system call is next; what the system answers is the label of the
step. The kernel's table says which request an open socket was opened for: a number may be given
out again once it is closed.

A null `xs` is the empty list, and `count` is the length of the list.
-/

namespace NetScanner.Names.Exchange

open Infra Net

/-! ## The model -/

def nsWaitMax : Nat := 8

/-- A conversion to `int`. -/
def toInt (n : Int) : Int := n.bmod (2 ^ 32)

inductive Os where
  | posix
  | windows
deriving DecidableEq, Repr

/-- `ns_udp_exchange`, as far as the caller fills it in. -/
structure UdpExchange where
  req : Bytes
  cap : Nat
  port : Nat
deriving DecidableEq, Repr

/-- The arguments of a call. -/
structure Call where
  os : Os
  ip : Option Ip
  xs : List UdpExchange
  timeoutMs : Int

/-- How `recv` came back. -/
inductive Recv where
  | data (bytes : Bytes)
  | wouldBlock
  | failed
deriving DecidableEq, Repr

/-- What `recv` returned. -/
def Recv.n : Recv → Int
  | data bytes => bytes.length
  | wouldBlock => -1
  | failed => -1

/-- What was done with the sockets. A socket goes by the request it was opened for; `none` is a
number that is not open. -/
inductive Event where
  | opened (request : Nat)
  | connected (sock : Option Nat) (ip : Ip) (port : Nat)
  /-- The whole packet went out. -/
  | sent (sock : Option Nat) (req : Bytes)
  /-- `recv` into the buffer of a request. -/
  | received (sock : Option Nat) (buffer : Nat) (result : Recv)
  /-- `x->resp_len = n` -/
  | settled (request : Nat) (result : Recv)
  | closed (sock : Option Nat)
deriving DecidableEq, Repr

inductive Pc where
  | start
  /-- Head of the loop that opens sockets: about to call `ns_udp_socket`. -/
  | opening (i : Nat)
  | connecting (i sock : Nat)
  | sending (i sock : Nat)
  /-- About to read the clock for the deadline. -/
  | setDeadline
  /-- Head of `while (pending > 0)`. -/
  | waiting
  /-- In `ns_wait_any`, with this much time given and left. -/
  | polling (timeoutMs left : Int)
  /-- Head of the backwards loop, with `left` places to look at. -/
  | draining (ready : List Bool) (left : Nat)
  /-- Head of the loop that closes what is left. -/
  | closing (j : Nat)
  | returned
deriving DecidableEq, Repr

/-- The variables of the call, with what the kernel holds for it. -/
structure Core where
  waiting : List Nat
  owner : List Nat
  pending : Nat
  deadline : Int
  /-- `resp_len` of each request. -/
  respLen : List Int
  /-- What `recv` has put into `resp` of each request. -/
  resp : List Bytes
  /-- The sockets that are open. -/
  table : Handles Nat
  log : List Event
deriving DecidableEq, Repr

structure State extends Core where
  pc : Pc
deriving DecidableEq, Repr

/-- What the system answers. -/
inductive Answer where
  /-- No call is made. -/
  | go
  | socket (fd : Option Nat)
  | connect (ok : Bool)
  | send (n : Int)
  | clock (now : Int)
  /-- `poll`, and the clock after an interruption. -/
  | poll (n : Int) (revents : List Nat) (interrupted : Bool) (elapsedMs : Int)
  /-- `select`, with the sockets that can be read. -/
  | select (n : Int) (readable : List Nat)
  | recv (result : Recv)
deriving DecidableEq, Repr

/-- How far `ns_wait_any` came. -/
inductive Wait where
  | retry (left : Int)
  | done (n : Int) (ready : List Bool)

/-- One turn of `ns_wait_any`. -/
def nsWaitAny (os : Os) (socks : List Nat) (timeoutMs : Int) : Answer → Option Wait
  | .select n readable =>
    if os = .windows then some (.done n (socks.map fun sock => n > 0 && sock ∈ readable)) else none
  | .poll n revents interrupted elapsedMs =>
    if os = .posix then
      let ready := (List.range socks.length).map fun i => decide (n > 0) && revents.getD i 0 != 0
      if n ≥ 0 then some (.done n ready)
      else if interrupted = false then some (.done (-1) ready)
      -- `EINTR`: once more, with the time that is left
      else
        let left := timeoutMs - toInt elapsedMs
        if left ≤ 0 then some (.done 0 ready) else some (.retry left)
    else none
  | _ => none

namespace Core

/-- On to the next call. -/
def goto (k : Core) (pc : Pc) : State := { k with pc }

/-- Note what happens. -/
def note (k : Core) (e : Event) : Core := { k with log := k.log ++ [e] }

def nsClose (k : Core) (sock : Nat) : Core :=
  { k with table := k.table.close sock, log := k.log ++ [.closed (k.table.find sock)] }

/-- The kernel opens a socket. -/
def nsOpen (k : Core) (sock i : Nat) : Core :=
  { k with table := (sock, i) :: k.table, log := k.log ++ [.opened i] }

/-- `waiting[pending] = sock`, `owner[pending] = i`. -/
def push (k : Core) (sock i : Nat) : Core :=
  { k with
    waiting := k.waiting.set k.pending sock
    owner := k.owner.set k.pending i
    pending := k.pending + 1 }

/-- The last socket moves into slot `j`. -/
def swapOut (k : Core) (j : Nat) : Core :=
  let pending := k.pending - 1
  { k with
    pending
    waiting := k.waiting.set j (k.waiting.getD pending 0)
    owner := k.owner.set j (k.owner.getD pending 0) }

/-- `recv` on `waiting[j]`, into the buffer of `owner[j]`. -/
def read (k : Core) (j : Nat) (result : Recv) : Core :=
  let x := k.owner.getD j 0
  let k := k.note (.received (k.table.find (k.waiting.getD j 0)) x result)
  match result with
  | .data bytes => { k with resp := k.resp.set x bytes }
  | _ => k

/-- `x->resp_len = n` -/
def settle (k : Core) (x : Nat) (result : Recv) : Core :=
  { k with respLen := k.respLen.set x result.n, log := k.log ++ [.settled x result] }

/-- What the backwards loop does with a socket that is ready. -/
def drain (k : Core) (j : Nat) (result : Recv) : Core :=
  let sock := k.waiting.getD j 0
  let x := k.owner.getD j 0
  let k := k.read j result
  if result = .wouldBlock then k else ((k.settle x result).nsClose sock).swapOut j

/-- The reply to a request, as the caller reads it. -/
def reply (k : Core) (i : Nat) : Option Bytes :=
  let respLen := k.respLen.getD i (-1)
  if respLen < 0 then none else some ((k.resp.getD i []).take respLen.toNat)

/-- The checks of the arguments. -/
def begin (k : Core) (c : Call) : State :=
  if c.xs.length = 0 then k.goto .returned
  else
    let k := { k with respLen := k.respLen.map fun _ => -1 }
    if c.ip = none ∨ c.xs.length > nsWaitMax ∨ c.timeoutMs ≤ 0 then k.goto .returned
    else k.goto (.opening 0)

end Core

/-- What `recv` returns fits into the buffer. -/
def Recv.Fits (cap : Nat) : Recv → Prop
  | data bytes => bytes.length ≤ cap
  | _ => True

instance (cap : Nat) : DecidablePred (Recv.Fits cap)
  | .data bytes => inferInstanceAs (Decidable (bytes.length ≤ cap))
  | .wouldBlock => inferInstanceAs (Decidable True)
  | .failed => inferInstanceAs (Decidable True)

/-- One system call of `udp_exchange_all`, or what it does between two. A new socket is one that
is not open. -/
def step (c : Call) (s : State) (answer : Answer) : Option State :=
  match s.pc, answer with
  | .start, .go => some (s.begin c)
  | .opening i, .go => if i < c.xs.length then none else some (s.goto .setDeadline)
  | .opening i, .socket none =>
    if i < c.xs.length then some (s.goto (.opening (i + 1))) else none
  | .opening i, .socket (some fd) =>
    if i < c.xs.length ∧ fd ∉ s.table.names then some ((s.nsOpen fd i).goto (.connecting i fd))
    else none
  -- `||`: nothing is sent on a socket that was not connected
  | .connecting i sock, .connect ok => do
    let ip ← c.ip
    let x ← c.xs[i]?
    if ok then some ((s.note (.connected (s.table.find sock) ip x.port)).goto (.sending i sock))
    else some ((s.nsClose sock).goto (.opening (i + 1)))
  | .sending i sock, .send n => do
    let x ← c.xs[i]?
    if n = toInt x.req.length then
      some (((s.note (.sent (s.table.find sock) x.req)).push sock i).goto (.opening (i + 1)))
    else some ((s.nsClose sock).goto (.opening (i + 1)))
  | .setDeadline, .clock now =>
    some ({ s.toCore with deadline := now + c.timeoutMs }.goto .waiting)
  | .waiting, .go => if s.pending > 0 then none else some (s.goto (.closing 0))
  | .waiting, .clock now =>
    if s.pending > 0 then
      let left := s.deadline - now
      -- `ns_wait_any` refuses more sockets than it has room for
      if left ≤ 0 ∨ s.pending > nsWaitMax then some (s.goto (.closing 0))
      else some (s.goto (.polling (toInt left) (toInt left)))
    else none
  | .polling timeoutMs _, answer =>
    match nsWaitAny c.os (s.waiting.take s.pending) timeoutMs answer with
    | none => none
    | some (.retry left) => some (s.goto (.polling timeoutMs left))
    | some (.done n ready) =>
      if n ≤ 0 then some (s.goto (.closing 0)) else some (s.goto (.draining ready s.pending))
  | .draining _ 0, .go => some (s.goto .waiting)
  | .draining ready (j + 1), .go =>
    if ready.getD j false then none else some (s.goto (.draining ready j))
  | .draining ready (j + 1), .recv result =>
    if ready.getD j false ∧ result.Fits ((c.xs.map UdpExchange.cap).getD (s.owner.getD j 0) 0) then
      some ((s.drain j result).goto (.draining ready j))
    else none
  | .closing j, .go =>
    if j < s.pending then some ((s.nsClose (s.waiting.getD j 0)).goto (.closing (j + 1)))
    else some (s.goto .returned)
  | _, _ => none

/-- `udp_exchange_all`. The arrays start with anything in them. -/
def udpExchangeAll (c : Call) : Lts State Answer where
  init s :=
    s.pc = .start ∧ s.waiting.length = nsWaitMax ∧ s.owner.length = nsWaitMax ∧ s.pending = 0 ∧
      s.respLen.length = c.xs.length ∧ s.resp.length = c.xs.length ∧ s.table = [] ∧ s.log = []
  step := step c

/-! ## What one step can do -/

/-- A turn of `ns_wait_any`, which ends by the deadline. -/
def Answer.isWait : Answer → Bool
  | .poll .. => true
  | .select .. => true
  | _ => false

theorem isWait_of_nsWaitAny {os : Os} {socks : List Nat} {timeoutMs : Int} {answer : Answer}
    {wait : Wait} (h : nsWaitAny os socks timeoutMs answer = some wait) : answer.isWait := by
  cases answer with
  | poll n revents interrupted elapsedMs => rfl
  | select n readable => rfl
  | _ => cases h

/-- The steps from a place, each with what the system answers. -/
inductive Moves (c : Call) (k : Core) : Pc → Answer → State → Prop
  | begin : Moves c k .start .go (k.begin c)
  | allOpened {i : Nat} (hi : ¬i < c.xs.length) :
      Moves c k (.opening i) .go (k.goto .setDeadline)
  | noSocket {i : Nat} (hi : i < c.xs.length) :
      Moves c k (.opening i) (.socket none) (k.goto (.opening (i + 1)))
  | socket {i fd : Nat} (hi : i < c.xs.length) (hfd : fd ∉ k.table.names) :
      Moves c k (.opening i) (.socket (some fd)) ((k.nsOpen fd i).goto (.connecting i fd))
  | connected {i sock : Nat} {ip : Ip} {x : UdpExchange} (hip : c.ip = some ip)
      (hx : c.xs[i]? = some x) :
      Moves c k (.connecting i sock) (.connect true)
        ((k.note (.connected (k.table.find sock) ip x.port)).goto (.sending i sock))
  | notConnected {i sock : Nat} {x : UdpExchange} (hx : c.xs[i]? = some x) :
      Moves c k (.connecting i sock) (.connect false) ((k.nsClose sock).goto (.opening (i + 1)))
  | sent {i sock : Nat} {x : UdpExchange} (hx : c.xs[i]? = some x) :
      Moves c k (.sending i sock) (.send (toInt x.req.length))
        (((k.note (.sent (k.table.find sock) x.req)).push sock i).goto (.opening (i + 1)))
  | notSent {i sock : Nat} {n : Int} {x : UdpExchange} (hx : c.xs[i]? = some x)
      (hn : n ≠ toInt x.req.length) :
      Moves c k (.sending i sock) (.send n) ((k.nsClose sock).goto (.opening (i + 1)))
  | setDeadline {now : Int} :
      Moves c k .setDeadline (.clock now)
        ({ k with deadline := now + c.timeoutMs }.goto .waiting)
  | allSettled (hpending : ¬k.pending > 0) : Moves c k .waiting .go (k.goto (.closing 0))
  | timeIsUp {now : Int} (hleft : k.deadline - now ≤ 0 ∨ k.pending > nsWaitMax) :
      Moves c k .waiting (.clock now) (k.goto (.closing 0))
  | wait {now : Int} (hleft : ¬(k.deadline - now ≤ 0 ∨ k.pending > nsWaitMax)) :
      Moves c k .waiting (.clock now)
        (k.goto (.polling (toInt (k.deadline - now)) (toInt (k.deadline - now))))
  | interrupted {timeoutMs left left' : Int} {answer : Answer} (hwait : answer.isWait) :
      Moves c k (.polling timeoutMs left) answer (k.goto (.polling timeoutMs left'))
  | noneReady {timeoutMs left : Int} {answer : Answer} (hwait : answer.isWait) :
      Moves c k (.polling timeoutMs left) answer (k.goto (.closing 0))
  | someReady {timeoutMs left : Int} {answer : Answer} {ready : List Bool}
      (hwait : answer.isWait) :
      Moves c k (.polling timeoutMs left) answer (k.goto (.draining ready k.pending))
  | allDrained {ready : List Bool} : Moves c k (.draining ready 0) .go (k.goto .waiting)
  | notReady {ready : List Bool} {j : Nat} (hready : ready.getD j false = false) :
      Moves c k (.draining ready (j + 1)) .go (k.goto (.draining ready j))
  | drain {ready : List Bool} {j : Nat} {result : Recv} (hready : ready.getD j false = true) :
      Moves c k (.draining ready (j + 1)) (.recv result)
        ((k.drain j result).goto (.draining ready j))
  | close {j : Nat} (hj : j < k.pending) :
      Moves c k (.closing j) .go ((k.nsClose (k.waiting.getD j 0)).goto (.closing (j + 1)))
  | allClosed {j : Nat} (hj : ¬j < k.pending) : Moves c k (.closing j) .go (k.goto .returned)

theorem step_moves {c : Call} {s s' : State} {answer : Answer} (hstep : step c s answer = some s') :
    Moves c s.toCore s.pc answer s' := by
  unfold step at hstep
  split at hstep
  · next hpc =>
    cases hstep
    exact hpc ▸ .begin
  · next i hpc =>
    split at hstep
    · cases hstep
    · next hi =>
      cases hstep
      exact hpc ▸ .allOpened hi
  · next i hpc =>
    split at hstep
    · next hi =>
      cases hstep
      exact hpc ▸ .noSocket hi
    · cases hstep
  · next i fd hpc =>
    split at hstep
    · next hi =>
      cases hstep
      exact hpc ▸ .socket hi.1 hi.2
    · cases hstep
  · next i sock ok hpc =>
    obtain ⟨ip, hip, hstep⟩ := Option.bind_eq_some_iff.mp hstep
    obtain ⟨x, hx, hstep⟩ := Option.bind_eq_some_iff.mp hstep
    split at hstep
    · next hok =>
      cases hstep
      cases hok
      exact hpc ▸ .connected hip hx
    · next hok =>
      cases hstep
      cases Bool.eq_false_iff.mpr hok
      exact hpc ▸ .notConnected hx
  · next i sock n hpc =>
    obtain ⟨x, hx, hstep⟩ := Option.bind_eq_some_iff.mp hstep
    split at hstep
    · next hn =>
      cases hstep
      exact hpc ▸ hn ▸ .sent hx
    · next hn =>
      cases hstep
      exact hpc ▸ .notSent hx hn
  · next now hpc =>
    cases hstep
    exact hpc ▸ .setDeadline
  · next hpc =>
    split at hstep
    · cases hstep
    · next hpending =>
      cases hstep
      exact hpc ▸ .allSettled hpending
  · next now hpc =>
    split at hstep
    · simp only [] at hstep
      split at hstep
      · next hleft =>
        cases hstep
        exact hpc ▸ .timeIsUp hleft
      · next hleft =>
        cases hstep
        exact hpc ▸ .wait hleft
    · cases hstep
  · next timeoutMs left hpc =>
    split at hstep
    · cases hstep
    · next hwait =>
      cases hstep
      exact hpc ▸ .interrupted (isWait_of_nsWaitAny hwait)
    · next hwait =>
      split at hstep
      · cases hstep
        exact hpc ▸ .noneReady (isWait_of_nsWaitAny hwait)
      · cases hstep
        exact hpc ▸ .someReady (isWait_of_nsWaitAny hwait)
  · next ready hpc =>
    cases hstep
    exact hpc ▸ .allDrained
  · next ready j hpc =>
    split at hstep
    · cases hstep
    · next hready =>
      cases hstep
      exact hpc ▸ .notReady (Bool.eq_false_iff.mpr hready)
  · next ready j result hpc =>
    split at hstep
    · next hready =>
      cases hstep
      exact hpc ▸ .drain hready.1
    · cases hstep
  · next j hpc =>
    split at hstep
    · next hj =>
      cases hstep
      exact hpc ▸ .close hj
    · next hj =>
      cases hstep
      exact hpc ▸ .allClosed hj
  · cases hstep

end NetScanner.Names.Exchange
