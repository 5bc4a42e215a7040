import NetScanner.Net.Address

/-!
# Host names in mDNS replies

`src/core/multicast.zig`: what a reply to the discovery socket is, and the name an mDNS reply
gives its sender.

Two walkers read the names of a packet. `skipName` finds where a name ends; `decodeName`
follows compression pointers and writes the dotted name into a buffer of 256 bytes. What
`decodeName` returns is a slice of the buffer, so the buffer is part of the model: a slice is
its length, and its bytes are those of the buffer when it is read (`text`).

What a buffer holds before the first write is undefined in the source; it is any value here.
-/

namespace NetScanner.Names

open Infra Net

def dnsTypeA : Nat := 1
def dnsTypePtr : Nat := 12
def dnsHeaderLen : Nat := 12

/-- An output buffer. -/
abbrev Buffer := Vector UInt8 256

/-- The bytes of the slice `out[0..len]`. -/
def text (out : Buffer) (len : Nat) : Bytes := out.toList.take len

/-- A big-endian `u16`. -/
def readU16 (packet : Bytes) (pos : Nat) : Nat :=
  (byteAt packet pos).toNat * 256 + (byteAt packet (pos + 1)).toNat

/-- Where the record after the name at `pos` starts, or none if the name runs off the end of the
packet. -/
def skipName (packet : Bytes) (pos : Nat) : Option Nat :=
  if pos < packet.length then
    let len := byteAt packet pos
    if len = 0 then some (pos + 1)
    else if len &&& 0xC0 = 0xC0 then if pos + 2 ≤ packet.length then some (pos + 2) else none
    else if len &&& 0xC0 ≠ 0 then none
    else skipName packet (pos + 1 + len.toNat)
  else none
termination_by packet.length - pos

/-- Most compression pointers one name may follow. -/
def maxJumps : Nat := 16

/-- Where a compression pointer points. -/
def pointerTarget (high low : UInt8) : Nat := (high &&& 0x3F).toNat <<< 8 ||| low.toNat

/-- The loop that copies a label; none at a character outside printable ASCII. -/
def writeLabel (out : Buffer) (len : Nat) : Bytes → Option Nat × Buffer
  | [] => (some len, out)
  | char :: rest =>
    if char < 32 ∨ char > 126 then (none, out)
    else writeLabel (out.setIfInBounds len char) (len + 1) rest

/-- The loop of `decodeName`: `len` bytes are written, and `jumpsLeft` more pointers may be
followed. -/
def decodeLoop (packet : Bytes) (jumpsLeft pos len : Nat) (out : Buffer) : Option Nat × Buffer :=
  if pos ≥ packet.length then (none, out)
  else
    let labelLen := byteAt packet pos
    if labelLen = 0 then (some len, out)
    else if labelLen &&& 0xC0 = 0xC0 then
      if pos + 1 ≥ packet.length then (none, out)
      else
        match jumpsLeft with
        | 0 => (none, out)
        | jumpsLeft + 1 =>
          decodeLoop packet jumpsLeft (pointerTarget labelLen (byteAt packet (pos + 1))) len out
    else if labelLen &&& 0xC0 ≠ 0 then (none, out)
    else
      let labelStart := pos + 1
      let labelEnd := labelStart + labelLen.toNat
      if labelEnd > packet.length then (none, out)
      else
        let dot := if len > 0 then 1 else 0
        if len + dot + labelLen.toNat > 256 then (none, out)
        else
          let out := if dot = 1 then out.setIfInBounds len 46 else out
          match writeLabel out (len + dot) (slice packet labelStart labelEnd) with
          | (none, out) => (none, out)
          | (some len, out) => decodeLoop packet jumpsLeft labelEnd len out
termination_by (jumpsLeft, packet.length - pos)

/-- The dotted name at `start`, following compression pointers. None for a malformed name, an
empty one, or one with a character outside printable ASCII. -/
def decodeName (packet : Bytes) (start : Nat) (out : Buffer) : Option Nat × Buffer :=
  match decodeLoop packet maxJumps start 0 out with
  | (some len, out) => if len = 0 then (none, out) else (some len, out)
  | (none, out) => (none, out)

/-- `std.ascii.toLower`. -/
def toLower (b : UInt8) : UInt8 := if 65 ≤ b ∧ b ≤ 90 then b + 32 else b

/-- `std.ascii.eqlIgnoreCase`. -/
def eqlIgnoreCase (a b : Bytes) : Bool := a.map toLower == b.map toLower

/-- Which protocol a datagram that reached the discovery socket speaks. -/
inductive Kind where
  | mdns
  | ssdp
deriving DecidableEq, Repr

/-- What a reply is; none for anything that is neither an SSDP search response nor a DNS
response. -/
def classify (data : Bytes) : Option Kind :=
  let ssdpOk := ascii "HTTP/1.1 200"
  if data.length ≥ ssdpOk.length ∧ eqlIgnoreCase (data.take ssdpOk.length) ssdpOk then some .ssdp
  else if data.length ≥ dnsHeaderLen ∧ byteAt data 2 &&& 0xF8 = 0x80 then some .mdns
  else none

/-- `d.c.b.a.in-addr.arpa` for the address `a.b.c.d`. -/
def reverseName (ip : Ip) : Bytes :=
  let (a, b, c, d) := ip
  decimal d ++ 46 :: (decimal c ++ 46 :: (decimal b ++ 46 :: (decimal a ++ ascii ".in-addr.arpa")))

def ipBytes (ip : Ip) : Bytes :=
  let (a, b, c, d) := ip
  [a, b, c, d]

/-- The loop over the questions: where the first record starts. -/
def skipQuestions (packet : Bytes) : Nat → Nat → Option Nat
  | 0, pos => some pos
  | count + 1, pos =>
    match skipName packet pos with
    | none => none
    | some pos => skipQuestions packet count (pos + 4)

/-- The loop over the records. `byAddress` is the slice of `out` with the name of an address
record that was found. -/
def recordLoop (packet : Bytes) («from» : Ip) :
    Nat → Nat → Option Nat → Buffer → Buffer → Option Bytes
  | 0, _, byAddress, out, _ => byAddress.map (text out)
  | count + 1, pos, byAddress, out, ownerBuf =>
    if pos > packet.length then none
    else
      let ownerPos := pos
      match skipName packet pos with
      | none => none
      | some pos =>
        if pos + 10 > packet.length then none
        else
          let rtype := readU16 packet pos
          let rdlen := readU16 packet (pos + 8)
          let rdata := pos + 10
          let pos := rdata + rdlen
          if pos > packet.length then none
          else if rtype = dnsTypePtr then
            match decodeName packet ownerPos ownerBuf with
            | (none, ownerBuf) => recordLoop packet «from» count pos byAddress out ownerBuf
            | (some len, ownerBuf) =>
              if eqlIgnoreCase (text ownerBuf len) (reverseName «from») = false then
                recordLoop packet «from» count pos byAddress out ownerBuf
              else
                let (name, out) := decodeName packet rdata out
                name.map (text out)
          else if rtype = dnsTypeA ∧ rdlen = 4 ∧ byAddress = none ∧
              slice packet rdata (rdata + 4) = ipBytes «from» then
            let (name, out) := decodeName packet ownerPos out
            recordLoop packet «from» count pos name out ownerBuf
          else recordLoop packet «from» count pos byAddress out ownerBuf

/-- The name an mDNS reply from `from` gives that host. -/
def hostName (packet : Bytes) («from» : Ip) (out ownerBuf : Buffer) : Option Bytes :=
  if packet.length < dnsHeaderLen then none
  else
    let qdcount := readU16 packet 4
    let records := readU16 packet 6 + readU16 packet 8 + readU16 packet 10
    match skipQuestions packet qdcount dnsHeaderLen with
    | none => none
    | some pos => recordLoop packet «from» records pos none out ownerBuf

end NetScanner.Names
