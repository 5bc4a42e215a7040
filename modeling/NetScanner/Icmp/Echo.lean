import NetScanner.Connects.Window

/-!
# Echo replies

`src/c/icmp_ping.c`, POSIX half: the datagrams a sweep reads from its sockets, and
`match_reply`, which finds the host a datagram answers.

Multi-byte fields of the payload are written and read on one machine with `memcpy`; they
are little-endian here, as on every machine the program is built for.
-/

namespace NetScanner.Icmp

open Infra
open Net (Ip)

/-- A datagram in a socket's queue, with its sender (`from.sin_addr`). -/
structure Datagram where
  bytes : List UInt8
  sender : Ip
deriving DecidableEq, Repr

/-- What a sweep was called with, and what it settles on before its loop. -/
structure SweepConfig where
  ips : List Ip
  timeoutMs : Int
  /-- As the caller passed it: 0 counts as 1. -/
  maxInFlightArg : Nat
  ident : UInt16
  token : UInt32
  /-- Linux delivers only the socket's own replies, without the IP header. -/
  linux : Bool
  /-- What `malloc` leaves in `sent_at`. -/
  garbage : Nat → Int
  /-- `count` and `max_in_flight` are `size_t`. -/
  count_lt : ips.length < 2 ^ 64
  max_lt : maxInFlightArg < 2 ^ 64

namespace SweepConfig

def count (c : SweepConfig) : Nat := c.ips.length

def maxInFlight (c : SweepConfig) : Nat := if c.maxInFlightArg = 0 then 1 else c.maxInFlightArg

end SweepConfig

def icmpEchoReplyType : UInt8 := 0
def icmpHeaderLen : Nat := 8
def payloadLen : Nat := 32

/-- Room of the buffer `recvfrom` fills. -/
def recvBufferLen : Nat := 512

/-- The `uint32_t` at `i`. -/
def uint32At (buf : List UInt8) (i : Nat) : UInt32 :=
  (byteAt buf i).toUInt32 ||| (byteAt buf (i + 1)).toUInt32 <<< 8 |||
    (byteAt buf (i + 2)).toUInt32 <<< 16 ||| (byteAt buf (i + 3)).toUInt32 <<< 24

/-- Where the ICMP message starts: behind an IPv4 header, if there is one. -/
def icmpOffset (buf : List UInt8) : Nat :=
  if 0 < buf.length ∧ byteAt buf 0 >>> 4 = 4 then (byteAt buf 0 &&& 0x0F).toNat * 4 else 0

/-- The host index an echo reply answers, or none for anything that is not an echo reply to
this sweep, from the host it was sent to. -/
def matchReply (c : SweepConfig) (d : Datagram) : Option Nat :=
  let buf := d.bytes.take recvBufferLen
  let offset := icmpOffset buf
  if buf.length < offset + icmpHeaderLen + payloadLen then none
  else
    let icmp := buf.drop offset
    if byteAt icmp 0 ≠ icmpEchoReplyType ∨ byteAt icmp 1 ≠ 0 then none
    else if c.linux = false ∧
        (byteAt icmp 4).toUInt16 <<< 8 ||| (byteAt icmp 5).toUInt16 ≠ c.ident then none
    else
      let token := uint32At icmp icmpHeaderLen
      let index := (uint32At icmp (icmpHeaderLen + 4)).toNat
      if token ≠ c.token ∨ c.count ≤ index then none
      else if c.ips[index]? ≠ some d.sender then none
      else some index

end NetScanner.Icmp
