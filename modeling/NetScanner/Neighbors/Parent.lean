import NetScanner.Net.Address

/-!
# The neighbor table of the parent process

`src/core/neighbor_table.zig`: with `--neighbor-table=parent` the program asks its parent for
the neighbor table, one request at a time, and reads the answers from stdin. An answer is one
line of JSON.

`decode` stands for `std.json`: what it makes of a line, none when it is not a message.

Input is a schedule: each chunk is what one `read` returns, with the time it arrives.
Computing takes no time, so the clock moves only while `poll` waits and between the requests
(`wait`). Times are nanoseconds.

Allocations succeed here. A diagnostic on stderr is not part of the model.
-/

namespace NetScanner.Neighbors

open Infra Net

/-! ## Replies -/

inductive NeighborState where
  | reachable
  | stale
deriving DecidableEq, Repr

structure Neighbor where
  ip : Ip
  mac : Option Mac
  state : NeighborState
deriving DecidableEq, Repr

/-- One row of a reply. -/
structure Entry where
  ip : Bytes
  mac : Option Bytes := none
  state : Option Bytes := none
deriving DecidableEq, Repr

/-- A message of the parent. -/
structure Message where
  type : Bytes
  id : Nat
  entries : Option (List Entry) := none
  error : Option Bytes := none
deriving DecidableEq, Repr

inductive Reply where
  | table (neighbors : List Neighbor)
  /-- The parent could not read the table either. -/
  | failed
  /-- An answer to an earlier request that came after its deadline. -/
  | earlier
deriving DecidableEq, Repr

inductive ReplyError where
  | invalidReply
deriving DecidableEq, Repr

def broadcastMac : Mac := #v[0xff, 0xff, 0xff, 0xff, 0xff, 0xff]

/-- The row of a table for an entry; none for an entry that is skipped: malformed, or one the
kernel reader would also leave out. -/
def readEntry (entry : Entry) : Option Neighbor := do
  let ip ← ipStringToBytes entry.ip
  if ip.1 = 0 ∨ ip.1 ≥ 224 then none
  else
    let mac ←
      match entry.mac with
      | none => some none
      | some text => (parseMac text).map some
    if mac = some broadcastMac then none
    else
      -- only an explicit "reachable" skips the confirming ping
      let reachable := entry.state = some (ascii "reachable")
      return { ip, mac, state := if reachable then .reachable else .stale }

/-- Decode one reply line for request `id`. -/
def parseReply (decode : Bytes → Option Message) (line : Bytes) (id : Nat) :
    Except ReplyError Reply :=
  match decode line with
  | none => .error .invalidReply
  | some message =>
    if message.type ≠ ascii "neighbors" then .error .invalidReply
    else if message.id < id then .ok .earlier
    else if message.id ≠ id then .error .invalidReply
    else if message.error.isSome then .ok .failed
    else
      match message.entries with
      | none => .error .invalidReply
      | some entries => .ok (.table (entries.filterMap readEntry))

/-! ## Input -/

/-- A reply larger than this is not a neighbor table. -/
def maxReplyBytes : Nat := 16 * 1024 * 1024

def defaultTimeoutMs : Nat := 2000

def nsPerMs : Nat := 1000000

/-- What one `read` returns, into a buffer of 64 KiB. -/
structure Chunk where
  time : Nat
  bytes : Bytes
  ne_nil : bytes ≠ []
  length_le : bytes.length ≤ 64 * 1024
deriving DecidableEq, Repr

/-- Why no line came. -/
inductive ReadError where
  | timeout
  | endOfStream
  | replyTooLarge
  /-- `poll` or `read` failed. -/
  | failed
deriving DecidableEq, Repr

/-- What `read` returns once there is no chunk left. -/
inductive StreamEnd where
  | closed
  | failed
deriving DecidableEq, Repr

/-- Stdin, and the clock. -/
structure Input where
  now : Nat
  chunks : List Chunk
  /-- When and how the stream ends after the chunks; none while the parent keeps it open. -/
  ended : Option (Nat × StreamEnd) := none
deriving DecidableEq, Repr

/-- The bytes that are still to come. -/
def Input.bytes (input : Input) : Bytes := input.chunks.flatMap (·.bytes)

/-- `std.mem.indexOfScalarPos`: where `b` first stands from `start` on. -/
def indexOfScalarPos (bytes : Bytes) (start : Nat) (b : UInt8) : Option Nat :=
  ((bytes.drop start).idxOf? b).map (start + ·)

/-- The loop of `readLine`. `pending` is what was read and not returned, and its first
`searched` bytes have no newline. Gives the line, and what is pending, the time and the chunks
left after it. -/
def readLineLoop (timeoutMs : Nat) (ended : Option (Nat × StreamEnd)) (pending : Bytes)
    (searched now : Nat) (chunks : List Chunk) :
    Except ReadError Bytes × Bytes × Nat × List Chunk :=
  match indexOfScalarPos pending searched 10 with
  | some «end» => (.ok (pending.take «end»), pending.drop («end» + 1), now, chunks)
  | none =>
    if pending.length > maxReplyBytes then (.error .replyTooLarge, pending, now, chunks)
    else
      match chunks with
      | chunk :: rest =>
        if chunk.time ≤ now + timeoutMs * nsPerMs then
          readLineLoop timeoutMs ended (pending ++ chunk.bytes) pending.length
            (max now chunk.time) rest
        else (.error .timeout, pending, now + timeoutMs * nsPerMs, chunks)
      | [] =>
        match ended with
        | some (time, how) =>
          if time ≤ now + timeoutMs * nsPerMs then
            let error :=
              match how with
              | .closed => .endOfStream
              | .failed => .failed
            (.error error, pending, max now time, chunks)
          else (.error .timeout, pending, now + timeoutMs * nsPerMs, chunks)
        | none => (.error .timeout, pending, now + timeoutMs * nsPerMs, chunks)

/-! ## Requests -/

/-- The parent's side of the conversation. -/
structure Parent where
  timeoutMs : Nat := defaultTimeoutMs
  nextId : Nat := 1
  /-- Set once the parent missed a deadline or closed stdin. -/
  gaveUp : Bool := false
  /-- Bytes read past the last full line. -/
  pending : Bytes := []
deriving DecidableEq, Repr

/-- The next line of input without its newline. Waits at most `timeoutMs` for more of it. -/
def readLine (parent : Parent) (input : Input) (timeoutMs : Nat) :
    Except ReadError Bytes × Parent × Input :=
  let (line, pending, now, chunks) :=
    readLineLoop timeoutMs input.ended parent.pending 0 input.now input.chunks
  (line, { parent with pending }, { input with now, chunks })

/-- The loop of `awaitReply`, for at most `turns` lines. -/
def awaitLoop (decode : Bytes → Option Message) (id started : Nat) :
    Nat → Parent → Input → Option (List Neighbor) × Parent × Input
  | 0, parent, input => (none, parent, input)
  | turns + 1, parent, input =>
    let waitedMs := (input.now - started) / nsPerMs
    let leftMs := parent.timeoutMs - waitedMs
    match readLine parent input leftMs with
    | (.error _, parent, input) => (none, { parent with gaveUp := true }, input)
    | (.ok line, parent, input) =>
      match parseReply decode line id with
      | .error _ => (none, parent, input)
      | .ok (.table table) => (some table, parent, input)
      | .ok .failed => (none, parent, input)
      | .ok .earlier => awaitLoop decode id started turns parent input

/-- The reply to request `id`, skipping replies to earlier requests that arrived after their
deadline. Every turn of the loop but the last takes a newline off what is pending and what is
still to come, so there are no more turns than bytes. -/
def awaitReply (decode : Bytes → Option Message) (parent : Parent) (input : Input) (id : Nat) :
    Option (List Neighbor) × Parent × Input :=
  awaitLoop decode id input.now (parent.pending.length + input.bytes.length + 1) parent input

/-- The conversation: the parent's side, stdin, and what was printed. -/
structure Conversation where
  parent : Parent := {}
  input : Input
  printed : List String := []
deriving DecidableEq, Repr

def requestLine (id : Nat) : String :=
  "\x7b\"type\":\"neighbors_request\",\"id\":" ++ toString id ++ "\x7d\n"

/-- Ask the parent for the table and wait for its answer. -/
def request (decode : Bytes → Option Message) (c : Conversation) :
    Option (List Neighbor) × Conversation :=
  if c.parent.gaveUp then (none, c)
  else
    let id := c.parent.nextId
    let parent := { c.parent with nextId := id + 1 }
    let (table, parent, input) := awaitReply decode parent c.input id
    (table, { parent, input, printed := c.printed ++ [requestLine id] })

/-- Time passes before the next request. -/
def Conversation.wait (c : Conversation) (ns : Nat) : Conversation :=
  { c with input := { c.input with now := c.input.now + ns } }

/-- One request after each of the waits: the results, and the conversation after them. -/
def requests (decode : Bytes → Option Message) (c : Conversation) :
    List Nat → List (Option (List Neighbor)) × Conversation
  | [] => ([], c)
  | ns :: waits =>
    let (table, c) := request decode (c.wait ns)
    let (tables, c) := requests decode c waits
    (table :: tables, c)

end NetScanner.Neighbors
