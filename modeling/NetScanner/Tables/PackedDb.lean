import NetScanner.Infra.Bytes

/-!
# Packed lookup tables

`src/core/packed_db.zig`: the reader of the tables the program embeds. A 24-byte
little-endian header, a table of records of one size, and a string pool the records point
into.

`open_` checks the header at compile time; an error here is a file that does not build.
`open_layout` is the other direction: a file laid out as the generators in `scripts/` lay it
out is accepted, and the table is the one that was written.

`usize` is 64 bits wide, so no sum of two header fields overflows; they are `Nat` here.
-/

namespace NetScanner.PackedDb

open Infra

def headerSize : Nat := 24

/-- `std.mem.readInt(u32, bytes[start..][0..4], .little)`. -/
def readU32 (bytes : Bytes) (start : Nat) : Nat := leNat (slice bytes start (start + 4))

structure Header where
  magic : Bytes
  version : Nat
  entryCount : Nat
  tableOffset : Nat
  stringsOffset : Nat
  stringsLen : Nat
deriving DecidableEq, Repr

/-- A validated table: the raw record bytes and the string pool. -/
structure Table where
  entryCount : Nat
  recordSize : Nat
  records : Bytes
  strings : Bytes
deriving DecidableEq, Repr

/-- The bytes of record `index`; the caller keeps `index < entryCount`. -/
def Table.record (t : Table) (index : Nat) : Bytes :=
  let start := index * t.recordSize
  slice t.records start (start + t.recordSize)

/-- The compile errors of `open`. -/
inductive OpenError where
  /-- "embedded table is smaller than its header" -/
  | smallerThanHeader
  /-- "embedded table has magic '…', expected '…'" -/
  | magic (found expected : Bytes)
  /-- "unsupported embedded table format version" -/
  | version
  /-- "embedded table records extend beyond file size" -/
  | recordsBeyondFile
  /-- "embedded table string pool does not start where the records end" -/
  | stringsNotAfterRecords
  /-- "embedded table string pool extends beyond file size" -/
  | stringsBeyondFile
deriving DecidableEq, Repr

def readHeader (bytes : Bytes) : Header where
  magic := slice bytes 0 4
  version := readU32 bytes 4
  entryCount := readU32 bytes 8
  tableOffset := readU32 bytes 12
  stringsOffset := readU32 bytes 16
  stringsLen := readU32 bytes 20

/-- Parse `bytes` and check its header against the expected magic, format version and record
size. -/
def open_ (bytes magic : Bytes) (version recordSize : Nat) : Except OpenError Table :=
  if bytes.length < headerSize then .error .smallerThanHeader
  else
    let header := readHeader bytes
    if header.magic ≠ magic then .error (.magic header.magic magic)
    else if header.version ≠ version then .error .version
    else
      let tableEnd := header.tableOffset + header.entryCount * recordSize
      if tableEnd > bytes.length then .error .recordsBeyondFile
      else if header.stringsOffset ≠ tableEnd then .error .stringsNotAfterRecords
      else if header.stringsOffset + header.stringsLen > bytes.length then
        .error .stringsBeyondFile
      else
        .ok
          { entryCount := header.entryCount
            recordSize
            records := slice bytes header.tableOffset tableEnd
            strings := slice bytes header.stringsOffset
              (header.stringsOffset + header.stringsLen) }

/-! ## What the generators write

`struct.pack` raises an error on a number that does not fit; `none` is that error. -/

/-- `struct.pack("<B", n)`. -/
def packU8 (n : Nat) : Option Bytes := if n < 2 ^ 8 then some (leBytes 1 n) else none

/-- `struct.pack("<I", n)`. -/
def packU32 (n : Nat) : Option Bytes := if n < 2 ^ 32 then some (leBytes 4 n) else none

/-- `struct.pack("<4sIIIII", ...)`. -/
def packHeader (magic : Bytes) (version count tableOffset stringsOffset stringsLen : Nat) :
    Option Bytes := do
  let version ← packU32 version
  let count ← packU32 count
  let tableOffset ← packU32 tableOffset
  let stringsOffset ← packU32 stringsOffset
  let stringsLen ← packU32 stringsLen
  return magic ++ (version ++ (count ++ (tableOffset ++ (stringsOffset ++ stringsLen))))

/-- The header of a file with `count` records and a pool of `stringsLen` bytes. -/
def headerBytes (magic : Bytes) (version count recordsLen stringsLen : Nat) : Bytes :=
  magic ++ (leBytes 4 version ++ (leBytes 4 count ++ (leBytes 4 headerSize ++
    (leBytes 4 (headerSize + recordsLen) ++ leBytes 4 stringsLen))))

theorem length_headerBytes {magic : Bytes} (hmagic : magic.length = 4)
    (version count recordsLen stringsLen : Nat) :
    (headerBytes magic version count recordsLen stringsLen).length = headerSize := by
  simp [headerBytes, hmagic, headerSize]

theorem packHeader_eq {magic : Bytes} {version count recordsLen stringsLen : Nat}
    (hversion : version < 2 ^ 32) (hcount : count < 2 ^ 32)
    (hrecords : headerSize + recordsLen < 2 ^ 32) (hstrings : stringsLen < 2 ^ 32) :
    packHeader magic version count headerSize (headerSize + recordsLen) stringsLen =
      some (headerBytes magic version count recordsLen stringsLen) := by
  have hheader : headerSize < 2 ^ 32 := by decide
  simp only [packHeader, packU32, if_pos hversion, if_pos hcount, if_pos hheader, if_pos hrecords,
    if_pos hstrings]
  rfl

/-- A header field `a` bytes in. -/
theorem readU32_append {a : Bytes} (rest : Bytes) {n start : Nat} (hstart : a.length = start)
    (hn : n < 2 ^ 32) : readU32 (a ++ (leBytes 4 n ++ rest)) start = n := by
  have h := slice_append_middle a (leBytes 4 n) rest
  rw [length_leBytes] at h
  rw [readU32, ← hstart, h]
  exact leNat_leBytes (by simpa using hn)

theorem readHeader_headerBytes {magic : Bytes} (hmagic : magic.length = 4)
    {version count recordsLen stringsLen : Nat} (hversion : version < 2 ^ 32)
    (hcount : count < 2 ^ 32) (hrecords : headerSize + recordsLen < 2 ^ 32)
    (hstrings : stringsLen < 2 ^ 32) (rest : Bytes) :
    readHeader (headerBytes magic version count recordsLen stringsLen ++ rest) =
      { magic, version, entryCount := count, tableOffset := headerSize,
        stringsOffset := headerSize + recordsLen, stringsLen } := by
  have hheader : headerSize < 2 ^ 32 := by decide
  unfold readHeader
  congr 1
  · simp only [headerBytes, List.append_assoc]
    rw [← hmagic, slice_append_left _ _ (Nat.le_refl _), slice_all]
  · simp only [headerBytes, List.append_assoc]
    exact readU32_append _ hmagic hversion
  · simp only [headerBytes, List.append_assoc]
    rw [← List.append_assoc magic]
    exact readU32_append _ (by simp [hmagic]) hcount
  · simp only [headerBytes, List.append_assoc]
    rw [← List.append_assoc magic, ← List.append_assoc (magic ++ _)]
    exact readU32_append _ (by simp [hmagic]) hheader
  · simp only [headerBytes, List.append_assoc]
    rw [← List.append_assoc magic, ← List.append_assoc (magic ++ _),
      ← List.append_assoc (magic ++ _ ++ _)]
    exact readU32_append _ (by simp [hmagic]) hrecords
  · simp only [headerBytes, List.append_assoc]
    rw [← List.append_assoc magic, ← List.append_assoc (magic ++ _),
      ← List.append_assoc (magic ++ _ ++ _), ← List.append_assoc (magic ++ _ ++ _ ++ _)]
    exact readU32_append _ (by simp [hmagic]) hstrings

/-- **A file laid out by a generator is accepted, and gives back its records and pool.** -/
theorem open_layout {magic records strings : Bytes} {version count recordSize : Nat}
    (hmagic : magic.length = 4) (hversion : version < 2 ^ 32) (hcount : count < 2 ^ 32)
    (hrecords : records.length = count * recordSize)
    (hoffset : headerSize + records.length < 2 ^ 32) (hstrings : strings.length < 2 ^ 32) :
    open_ (headerBytes magic version count records.length strings.length ++ (records ++ strings))
        magic version recordSize =
      .ok { entryCount := count, recordSize, records, strings } := by
  have hlen := length_headerBytes hmagic version count records.length strings.length
  have hhead := readHeader_headerBytes hmagic hversion hcount hoffset hstrings (records ++ strings)
  generalize headerBytes magic version count records.length strings.length = header at *
  have htotal : (header ++ (records ++ strings)).length =
      headerSize + records.length + strings.length := by
    rw [List.length_append, List.length_append, hlen]
    omega
  unfold open_
  simp only [hhead, htotal, ← hrecords]
  rw [if_neg (by omega), if_neg (by simp), if_neg (by simp), if_neg (by omega), if_neg (by simp),
    if_neg (by omega)]
  have hrec := slice_append_middle header records strings
  rw [hlen] at hrec
  have hpool := slice_append_middle (header ++ records) strings []
  rw [List.append_nil, List.append_assoc, List.length_append, hlen] at hpool
  rw [hrec, hpool]

end NetScanner.PackedDb
