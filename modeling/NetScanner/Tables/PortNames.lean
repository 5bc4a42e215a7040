import NetScanner.Infra.Utf8
import NetScanner.Infra.Pool
import NetScanner.Infra.Search
import NetScanner.Tables.PackedDb

/-!
# The packed port table

`scripts/generate_ports.py` packs what is known of each TCP port into a file
(`encode`, `pack`), and reads a file back to report what changed (`unpack`).
`src/core/ports.zig` embeds the file and looks ports up in it.

A Python text is a list of characters. A dictionary that is only read is a function; `merged`,
which is walked too, is the list of its items. A number that does not fit its field, an index
out of range and bytes that are not UTF-8 raise an exception in Python; `none` is that.
-/

namespace NetScanner.Ports

open Infra PackedDb

/-- What the table says of one port: `(label, iana_name, description, category)`. -/
structure Fields where
  label : List Char
  iana : List Char
  description : List Char
  category : List Char
deriving DecidableEq, Repr

def Fields.toList (fields : Fields) : List (List Char) :=
  [fields.label, fields.iana, fields.description, fields.category]

/-! ## `generate_ports.py` -/

/-- UTF-8, cut to the 255-byte limit of a length prefix without splitting a character. -/
def encode (text : List Char) : Bytes :=
  let data := utf8 text
  if data.length > 255 then utf8 (decodeIgnore (data.take 255)) else data

/-- How a string stands in the pool: its length, then its bytes. -/
def lengthPrefixed (data : Bytes) : Bytes := UInt8.ofNat data.length :: data

/-- The pool before the first string; offset 0 is the empty one. -/
def emptyPool : Pool where
  strings := [0]
  offsets := [([], 0)]

/-- `intern(f) for f in fields`. -/
def internAll : Pool → List (List Char) → Pool × List Nat
  | pool, [] => (pool, [])
  | pool, text :: rest =>
    let (pool, offset) := pool.intern lengthPrefixed (encode text)
    let (pool, offsets) := internAll pool rest
    (pool, offset :: offsets)

/-- `struct.pack("<H", n)`. -/
def packU16 (n : Nat) : Option Bytes := if n < 2 ^ 16 then some (leBytes 2 n) else none

/-- `struct.pack("<HHIIII", port, rank, *offsets)`. -/
def recordBytes (port rank : Nat) (offsets : List Nat) : Option Bytes := do
  let port ← packU16 port
  let rank ← packU16 rank
  let offsets ← offsets.mapM packU32
  return port ++ (rank ++ offsets.flatten)

structure PortPacking where
  pool : Pool := emptyPool
  table : Bytes := []

/-- One turn of the loop over `merged.items()`. -/
def packPort (ranks : Nat → Option Nat) (p : PortPacking) (item : Nat × Fields) :
    Option PortPacking := do
  let (pool, offsets) := internAll p.pool item.2.toList
  let record ← recordBytes item.1 ((ranks item.1).getD 0) offsets
  return { pool, table := p.table ++ record }

/-- The file. -/
def pack (merged : List (Nat × Fields)) (ranks : Nat → Option Nat) : Option Bytes := do
  let p ← merged.foldlM (packPort ranks) {}
  let header ← packHeader (ascii "NSPT") 1 merged.length headerSize (headerSize + p.table.length)
    p.pool.strings.length
  return header ++ (p.table ++ p.pool.strings)

/-- `RECORD_SIZE`, and `struct.calcsize(RECORD_FORMAT)`. -/
def portRecordSize : Nat := 20

/-- `std.mem.readInt(u16, bytes[start..][0..2], .little)`. -/
def readU16 (bytes : Bytes) (start : Nat) : Nat := leNat (slice bytes start (start + 2))

/-- `string`: the text at an offset of the pool. -/
def poolText (pool : Bytes) (offset : Nat) : Option (List Char) := do
  let length ← pool[offset]?
  decode? (slice pool (offset + 1) (offset + 1 + length.toNat))

/-- The record of `struct.unpack_from(RECORD_FORMAT, data, start)`, its strings read. -/
def unpackRecord (data pool : Bytes) (start : Nat) : Option (Nat × Nat × Fields) := do
  guard (start + portRecordSize ≤ data.length)
  let label ← poolText pool (readU32 data (start + 4))
  let iana ← poolText pool (readU32 data (start + 8))
  let description ← poolText pool (readU32 data (start + 12))
  let category ← poolText pool (readU32 data (start + 16))
  return (readU16 data start, readU16 data (start + 2), { label, iana, description, category })

/-- The dictionaries `unpack` fills. -/
structure Unpacked where
  result : Nat → Option Fields := fun _ => none
  ranks : Nat → Option Nat := fun _ => none

/-- One turn of the loop over the records. -/
def unpackPort (data pool : Bytes) (tableOffset : Nat) (u : Unpacked) (i : Nat) :
    Option Unpacked := do
  let (port, rank, fields) ← unpackRecord data pool (tableOffset + i * portRecordSize)
  return {
    result := Function.update u.result port (some fields)
    ranks := if rank ≠ 0 then Function.update u.ranks port (some rank) else u.ranks }

/-- Decode a file back into its table and ranks; the inner none is a file of another kind. -/
def unpack (data : Bytes) : Option (Option Unpacked) :=
  if data.length < headerSize then some none
  else
    let header := readHeader data
    if header.magic ≠ ascii "NSPT" ∨ header.version ≠ 1 then some none
    else
      let pool := slice data header.stringsOffset (header.stringsOffset + header.stringsLen)
      ((List.range header.entryCount).foldlM (unpackPort data pool header.tableOffset) {}).map some

/-! ## `ports.zig` -/

/-- What is known of one TCP port. -/
structure Service where
  /-- The curated label, else the IANA service name. -/
  name : Bytes
  iana : Option Bytes
  description : Option Bytes
  category : Option Bytes
deriving DecidableEq, Repr

def openPorts (bytes : Bytes) : Except OpenError Table :=
  open_ bytes (ascii "NSPT") 1 portRecordSize

/-- The port of entry `index`. -/
def portAt (db : Table) (index : Nat) : Nat := readU16 (db.record index) 0

/-- The rank of entry `index`'s port; 0 when it has no count. -/
def rankAt (db : Table) (index : Nat) : Nat := readU16 (db.record index) 2

def indexOf (db : Table) (port : Nat) : Option Nat :=
  binarySearch (fun mid => compare port (portAt db mid)) db.entryCount

/-- The length-prefixed string a record field points at; offset 0 is the empty string, which
means none. -/
def poolString (db : Table) (field : Bytes) : Option Bytes :=
  let offset := readU32 field 0
  match db.strings[offset]? with
  | none => none
  | some byte =>
    let len := byte.toNat
    if len = 0 ∨ offset + 1 + len > db.strings.length then none
    else some (slice db.strings (offset + 1) (offset + 1 + len))

def decode (db : Table) (record : Bytes) : Option Service := do
  let label := poolString db (slice record 4 8)
  let iana := poolString db (slice record 8 12)
  let name ← label.or iana
  return {
    name
    iana
    description := poolString db (slice record 12 16)
    category := poolString db (slice record 16 20) }

/-- Look up a TCP port. -/
def lookup (db : Table) (port : Nat) : Option Service := do
  let index ← indexOf db port
  decode db (db.record index)

/-- `port`'s rank; 0 for a port the table does not know. -/
def rank (db : Table) (port : Nat) : Nat :=
  match indexOf db port with
  | none => 0
  | some index => rankAt db index

end NetScanner.Ports
