import NetScanner.Infra.Pool
import NetScanner.Tables.Oui

/-!
# Packing a manuf file

`scripts/generate_oui.py`: the packer that writes the embedded vendor table.

A line is an entry when the pattern

`^([0-9A-Fa-f]{2}[:-][0-9A-Fa-f]{2}[:-][0-9A-Fa-f]{2})\s+(\S+)(?:\s+(.*))?$`

matches it: the pattern wants white space right after the third octet, so a line for a longer
prefix is none. The entries are sorted, and the first of those with one prefix is kept.

A text is ASCII here, so a character is a byte and `encode("utf-8")` changes nothing. `none`
of `parseAndPack` is an error of `struct.pack`.
-/

namespace NetScanner.Oui

open Infra PackedDb Net

/-- `str.isspace`, and `\s` of a pattern. -/
def isSpace (b : UInt8) : Bool := (9 ≤ b && b ≤ 13) || (28 ≤ b && b ≤ 32)

/-- `[0-9A-Fa-f]{2}`, read as `int(x, 16)`. -/
def hexPair (a b : UInt8) : Option UInt8 :=
  match hexDigit a, hexDigit b with
  | some x, some y => some (UInt8.ofNat (x * 16 + y))
  | _, _ => none

/-- The first group, `XX[:-]XX[:-]XX`, and what follows it. -/
def matchPrefix (line : Bytes) : Option (Prefix24 × Bytes) :=
  match line with
  | a0 :: a1 :: s0 :: b0 :: b1 :: s1 :: c0 :: c1 :: rest =>
    if anyOf ":-" s0 && anyOf ":-" s1 then
      match hexPair a0 a1, hexPair b0 b1, hexPair c0 c1 with
      | some o0, some o1, some o2 => some (⟨o0, o1, o2⟩, rest)
      | _, _, _ => none
    else none
  | _ => none

/-- `\s+(\S+)(?:\s+(.*))?$` on what follows the prefix: the short name, and the long name if
the line goes on. Each of the runs takes all it can, and what is left is taken by the next one,
so no other match is ever tried. -/
def matchNames (rest : Bytes) : Option (Bytes × Option Bytes) :=
  if rest.takeWhile isSpace = [] then none
  else
    let names := rest.dropWhile isSpace
    let shortName := names.takeWhile (!isSpace ·)
    if shortName = [] then none
    else
      match names.dropWhile (!isSpace ·) with
      | [] => some (shortName, none)
      | tail => some (shortName, some (tail.dropWhile isSpace))

/-- `(long_name.strip() if long_name else short_name).strip()`. -/
def vendorName (shortName : Bytes) (longName : Option Bytes) : Bytes :=
  match longName with
  | none | some [] => trim isSpace shortName
  | some long => trim isSpace (trim isSpace long)

/-- One turn of the loop over the lines. -/
def packLine (rawLine : Bytes) : Option OuiEntry :=
  let line := trim isSpace rawLine
  if line = [] ∨ line.head? = some 35 then none
  else do
    let (octets, rest) ← matchPrefix line
    let (shortName, longName) ← matchNames rest
    return { octets, vendor := vendorName shortName longName }

/-- `temp_entries`. -/
def tempEntries (text : Bytes) : List OuiEntry := (splitlines text).filterMap packLine

/-- The order of `bytes` objects. -/
def prefixLess (a b : OuiEntry) : Bool := memOrder a.octets.bytes b.octets.bytes == .lt

/-- Sorted by prefix, the earlier entry kept. -/
def uniqueEntries (entries : List OuiEntry) : List OuiEntry :=
  keepFirst (·.octets) [] (stableSort prefixLess entries)

/-- What the loop over the unique entries builds: `string_pool` with `vendor_offsets`, and
`packed_entries`. -/
structure Packing where
  pool : Pool := {}
  packedEntries : Bytes := []
deriving DecidableEq, Repr

/-- A name is cut to the 255 bytes its length can say. -/
def cut (vendor : Bytes) : Bytes := if vendor.length > 255 then vendor.take 255 else vendor

/-- `struct.pack("<3sBI", prefix, len(v_bytes), offset)`. -/
def entryBytes (octets : Prefix24) (nameLen offset : Nat) : Option Bytes := do
  let len ← packU8 nameLen
  let off ← packU32 offset
  return octets.bytes ++ (len ++ off)

/-- One turn of the loop. A vendor goes into the pool as it is. -/
def packEntry (p : Packing) (entry : OuiEntry) : Option Packing := do
  let name := cut entry.vendor
  let (pool, offset) := p.pool.intern id name
  let bytes ← entryBytes entry.octets name.length offset
  return { pool, packedEntries := p.packedEntries ++ bytes }

/-- The bytes of the file `parse_and_pack` writes for a text. -/
def parseAndPack (text : Bytes) : Option Bytes := do
  let unique := uniqueEntries (tempEntries text)
  let p ← unique.foldlM packEntry {}
  let tableOffset := headerSize
  let stringsOffset := tableOffset + p.packedEntries.length
  let header ← packHeader (ascii "NSOU") 1 unique.length tableOffset stringsOffset
    p.pool.strings.length
  return header ++ (p.packedEntries ++ p.pool.strings)

/-- The table the program opens: `packed_db.open(bytes, "NSOU", 1, @sizeOf(PackedEntry))`. -/
def openOui (bytes : Bytes) : Except OpenError Table :=
  open_ bytes (ascii "NSOU") 1 packedEntrySize

end NetScanner.Oui
