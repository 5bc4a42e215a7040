import NetScanner.Infra.Search
import NetScanner.Infra.Sort
import NetScanner.Net.Address
import NetScanner.Tables.PackedDb

/-!
# Hardware vendors

`src/core/oui.zig`: the vendor of a MAC address, from the embedded table or from a manuf file
the user loads.

The embedded table is a parameter: what `@embedFile` reads is one value of it.

`std.sort.binarySearch` finds an entry that compares equal, whichever it comes to; `lookup`
takes the search as a parameter (`SearchFn`). `std.mem.sort` is stable, so its result is
determined by the comparison (`stableSort`).

Allocations succeed here; a file that is loaded is the file that was read.
-/

namespace NetScanner.Oui

open Infra PackedDb Net

/-- The three octets a vendor is registered under. -/
structure Prefix24 where
  o0 : UInt8
  o1 : UInt8
  o2 : UInt8
deriving DecidableEq, Repr

namespace Prefix24

def bytes (p : Prefix24) : Bytes := [p.o0, p.o1, p.o2]

/-- The octets as one number. -/
def value (p : Prefix24) : Nat := p.o0.toNat * 65536 + p.o1.toNat * 256 + p.o2.toNat

end Prefix24

/-- `[3]u8{ mac[0], mac[1], mac[2] }`. -/
def target (mac : Mac) : Prefix24 := ⟨mac[0], mac[1], mac[2]⟩

structure OuiEntry where
  /-- `prefix` in the source. -/
  octets : Prefix24
  vendor : Bytes
deriving DecidableEq, Repr

/-- `std.mem.order`: lexicographic, the shorter of two first when it is the start of the
other. -/
def memOrder : Bytes → Bytes → Ordering
  | [], [] => .eq
  | [], _ :: _ => .lt
  | _ :: _, [] => .gt
  | a :: as, b :: bs => if a < b then .lt else if a > b then .gt else memOrder as bs

/-! ## The embedded table -/

/-- The size of `PackedEntry`: three octets, the length of the name and its offset. -/
def packedEntrySize : Nat := 8

/-- Search the embedded table. The sum of the offset and the length is a `u32` in the source;
in a table that was packed it is at most the length of the pool. -/
def lookupEmbeddedVendor (db : Table) (mac : Mac) : Option Bytes :=
  let compareAt mid := memOrder (target mac).bytes (slice (db.record mid) 0 3)
  match binarySearch compareAt db.entryCount with
  | none => none
  | some mid =>
    let entry := db.record mid
    let nameLen := (entry.getD 3 0).toNat
    let nameOffset := readU32 entry 4
    if nameOffset + nameLen > db.strings.length then none
    else some (slice db.strings nameOffset (nameOffset + nameLen))

/-! ## Reading a manuf line -/

/-- The length check of an octet, and its value. -/
def parseOctet (h : Bytes) : Option UInt8 :=
  if h.length = 0 ∨ h.length > 2 then none else parseInt h

/-- The first three octets of an address; what follows them is not read. -/
def parseOctets (macStr : Bytes) : Option Prefix24 := do
  let (h0, rest) ← nextToken (anyOf ":-") macStr
  let (h1, rest) ← nextToken (anyOf ":-") rest
  let (h2, _) ← nextToken (anyOf ":-") rest
  let b0 ← parseOctet h0
  let b1 ← parseOctet h1
  let b2 ← parseOctet h2
  return ⟨b0, b1, b2⟩

/-- Parse a single line of a manuf file. None for comments, blank lines and malformed
entries. -/
def parseManufLine (rawLine : Bytes) : Option OuiEntry :=
  let line := trim (anyOf " \t\r") rawLine
  if line = [] ∨ line.head? = some 35 then none
  else do
    let (macStr, rest) ← nextToken (anyOf " \t") line
    let (shortName, rest) ← nextToken (anyOf " \t") rest
    let rest := rest.dropWhile (anyOf " \t")
    let vendor := if rest.length > 0 then trim (anyOf " \t") rest else shortName
    let octets ← parseOctets macStr
    return { octets, vendor }

/-! ## A loaded file -/

/-- The loop over the octets: `none` when they are all equal. -/
def firstDifference : List (UInt8 × UInt8) → Option Bool
  | [] => none
  | (a, b) :: rest =>
    if a < b then some true else if a > b then some false else firstDifference rest

/-- Ascending by prefix. -/
def ouiEntryLessThan (a b : OuiEntry) : Bool :=
  match firstDifference (a.octets.bytes.zip b.octets.bytes) with
  | some less => less
  | none => false

def comparePrefix (key : Prefix24) (mid : OuiEntry) : Ordering :=
  match firstDifference (key.bytes.zip mid.octets.bytes) with
  | some true => .lt
  | some false => .gt
  | none => .eq

/-- Compare with entry `i`; past the end there is nothing to read. -/
def compareAt (entries : List OuiEntry) (mac : Mac) (i : Nat) : Ordering :=
  match entries[i]? with
  | none => .lt
  | some entry => comparePrefix (target mac) entry

/-- `std.sort.binarySearch(OuiEntry, entries, target, comparePrefix)`. -/
def findEntry (search : SearchFn) (entries : List OuiEntry) (mac : Mac) : Option Nat :=
  search.find (compareAt entries mac) entries.length

/-- The entries of a manuf text, in the order of its lines. -/
def manufEntries (content : Bytes) : List OuiEntry := (content.splitOn 10).filterMap parseManufLine

structure OuiDatabase where
  customEntries : Option (List OuiEntry) := none
deriving DecidableEq, Repr

inductive LoadError where
  | fileNotFound
deriving DecidableEq, Repr

/-- `read_file_content`: none for a file that cannot be opened or has more than 64 MB. -/
def readFileContent (file : Option Bytes) : Option Bytes :=
  match file with
  | none => none
  | some content => if content.length > 64 * 1024 * 1024 then none else some content

namespace OuiDatabase

def init : OuiDatabase := {}

def deinit (_self : OuiDatabase) : OuiDatabase := { customEntries := none }

/-- Load a manuf file, `none` when there is none at the path. Whatever was loaded before goes
first, so a load that fails leaves an empty database. -/
def loadFile (self : OuiDatabase) (file : Option Bytes) : Except LoadError Unit × OuiDatabase :=
  let self := self.deinit
  match readFileContent file with
  | none => (.error .fileNotFound, self)
  | some content =>
    (.ok (), { customEntries := some (stableSort ouiEntryLessThan (manufEntries content)) })

/-- The vendor of a MAC address: of the loaded file, else of the embedded table. -/
def lookup (self : OuiDatabase) (search : SearchFn) (embedded : Table) (mac : Mac) :
    Option Bytes :=
  match self.customEntries with
  | none => lookupEmbeddedVendor embedded mac
  | some entries =>
    match findEntry search entries mac with
    | none => lookupEmbeddedVendor embedded mac
    | some idx => entries[idx]?.map (·.vendor)

end OuiDatabase

/-! ## The order of the prefixes

All three comparisons of the source order prefixes as numbers. -/

theorem Prefix24.value_lt (p : Prefix24) : p.value < 2 ^ 24 := by
  have h0 := p.o0.toNat_lt
  have h1 := p.o1.toNat_lt
  have h2 := p.o2.toNat_lt
  unfold value
  omega

theorem Prefix24.value_inj {p q : Prefix24} (h : p.value = q.value) : p = q := by
  obtain ⟨p0, p1, p2⟩ := p
  obtain ⟨q0, q1, q2⟩ := q
  simp only [value] at h
  have hp1 := p1.toNat_lt
  have hp2 := p2.toNat_lt
  have hq1 := q1.toNat_lt
  have hq2 := q2.toNat_lt
  have e0 : p0 = q0 := UInt8.toNat_inj.mp (by omega)
  have e1 : p1 = q1 := UInt8.toNat_inj.mp (by omega)
  have e2 : p2 = q2 := UInt8.toNat_inj.mp (by omega)
  rw [e0, e1, e2]

theorem firstDifference_bytes (p q : Prefix24) :
    firstDifference (p.bytes.zip q.bytes) =
      if p.value < q.value then some true else if q.value < p.value then some false else none := by
  obtain ⟨p0, p1, p2⟩ := p
  obtain ⟨q0, q1, q2⟩ := q
  have hp1 := p1.toNat_lt
  have hp2 := p2.toNat_lt
  have hq1 := q1.toNat_lt
  have hq2 := q2.toNat_lt
  have hlt : ∀ {a b : UInt8}, a.toNat < b.toNat → a < b := fun h => UInt8.lt_iff_toNat_lt.mpr h
  have hnlt : ∀ {a b : UInt8}, b.toNat ≤ a.toNat → ¬a < b := by
    intro a b h hab
    exact absurd (UInt8.lt_iff_toNat_lt.mp hab) (by omega)
  have hp : Prefix24.value ⟨p0, p1, p2⟩ = p0.toNat * 65536 + p1.toNat * 256 + p2.toNat := rfl
  have hq : Prefix24.value ⟨q0, q1, q2⟩ = q0.toNat * 65536 + q1.toNat * 256 + q2.toNat := rfl
  simp only [Prefix24.bytes, List.zip_cons_cons, List.zip_nil_right, firstDifference, gt_iff_lt]
  rcases Nat.lt_trichotomy p0.toNat q0.toNat with h0 | h0 | h0
  · rw [if_pos (hlt h0), if_pos (by omega)]
  · rw [if_neg (hnlt (by omega)), if_neg (hnlt (by omega))]
    rcases Nat.lt_trichotomy p1.toNat q1.toNat with h1 | h1 | h1
    · rw [if_pos (hlt h1), if_pos (by omega)]
    · rw [if_neg (hnlt (by omega)), if_neg (hnlt (by omega))]
      rcases Nat.lt_trichotomy p2.toNat q2.toNat with h2 | h2 | h2
      · rw [if_pos (hlt h2), if_pos (by omega)]
      · rw [if_neg (hnlt (by omega)), if_neg (hnlt (by omega)), if_neg (by omega),
          if_neg (by omega)]
      · rw [if_neg (hnlt (by omega)), if_pos (hlt h2), if_neg (by omega), if_pos (by omega)]
    · rw [if_neg (hnlt (by omega)), if_pos (hlt h1), if_neg (by omega), if_pos (by omega)]
  · rw [if_neg (hnlt (by omega)), if_pos (hlt h0), if_neg (by omega), if_pos (by omega)]

theorem ouiEntryLessThan_eq (a b : OuiEntry) :
    ouiEntryLessThan a b = decide (a.octets.value < b.octets.value) := by
  unfold ouiEntryLessThan
  rw [firstDifference_bytes]
  by_cases hlt : a.octets.value < b.octets.value
  · simp [hlt]
  · by_cases hgt : b.octets.value < a.octets.value
    · simp [hlt, hgt]
    · simp [hlt, hgt]

theorem comparePrefix_eq (key : Prefix24) (mid : OuiEntry) :
    comparePrefix key mid = compare key.value mid.octets.value := by
  unfold comparePrefix
  rw [firstDifference_bytes]
  rcases Nat.lt_trichotomy key.value mid.octets.value with hlt | heq | hgt
  · rw [if_pos hlt, Nat.compare_eq_lt.mpr hlt]
  · rw [if_neg (by omega), if_neg (by omega), Nat.compare_eq_eq.mpr heq]
  · rw [if_neg (by omega), if_pos hgt, Nat.compare_eq_gt.mpr hgt]

theorem memOrder_bytes (p q : Prefix24) :
    memOrder p.bytes q.bytes = compare p.value q.value := by
  have h : memOrder p.bytes q.bytes = comparePrefix p ⟨q, []⟩ := by
    simp only [memOrder, comparePrefix, firstDifference, Prefix24.bytes, List.zip_cons_cons,
      List.zip_nil_right]
    split_ifs <;> rfl
  rw [h, comparePrefix_eq]

/-! ## Looking up in a loaded file -/

theorem compareAt_eq {entries : List OuiEntry} (mac : Mac) (i : Nat) (hi : i < entries.length) :
    compareAt entries mac i = compare (target mac).value entries[i].octets.value := by
  rw [compareAt, List.getElem?_eq_getElem hi]
  exact comparePrefix_eq _ _

theorem consistent_sorted (list : List OuiEntry) (mac : Mac) :
    Consistent (compareAt (stableSort ouiEntryLessThan list) mac)
      (stableSort ouiEntryLessThan list).length :=
  consistent_of_sorted (stableSort_sorted ouiEntryLessThan_eq list)
    fun i hi => compareAt_eq mac i hi

namespace OuiDatabase

/-- The database after a file with these entries was loaded. -/
def loaded (list : List OuiEntry) : OuiDatabase where
  customEntries := some (stableSort ouiEntryLessThan list)

/-- **A lookup ends at an entry of the file for the address**; without one, in the embedded
table. -/
theorem lookup_loaded (list : List OuiEntry) (search : SearchFn) (embedded : Table) (mac : Mac) :
    (∃ e ∈ list, e.octets = target mac ∧
      (loaded list).lookup search embedded mac = some e.vendor) ∨
    ((∀ e ∈ list, e.octets ≠ target mac) ∧
      (loaded list).lookup search embedded mac = lookupEmbeddedVendor embedded mac) := by
  have hperm : (stableSort ouiEntryLessThan list).Perm list := stableSort_perm list
  have hc := consistent_sorted list mac
  cases hfind : findEntry search (stableSort ouiEntryLessThan list) mac with
  | none =>
    right
    constructor
    · rintro e he heq
      obtain ⟨i, hi, hget⟩ := List.getElem_of_mem (hperm.symm.subset he)
      have hne := search.complete hc hfind i hi
      rw [compareAt_eq mac i hi, hget, heq] at hne
      exact hne (Nat.compare_eq_eq.mpr rfl)
    · simp only [loaded, lookup, hfind]
  | some idx =>
    left
    obtain ⟨hidx, heq⟩ := search.sound hc hfind
    rw [compareAt_eq mac idx hidx, Nat.compare_eq_eq] at heq
    have hmem : (stableSort ouiEntryLessThan list)[idx] ∈ stableSort ouiEntryLessThan list :=
      List.getElem_mem hidx
    refine ⟨_, hperm.subset hmem, (Prefix24.value_inj heq).symm, ?_⟩
    simp only [loaded, lookup, hfind, List.getElem?_eq_getElem hidx, Option.map_some]

/-- Any of the entries for the address can be the one: some search ends there. -/
theorem exists_lookup_loaded {list : List OuiEntry} {mac : Mac} {e : OuiEntry} (he : e ∈ list)
    (heq : e.octets = target mac) (embedded : Table) :
    ∃ search, (loaded list).lookup search embedded mac = some e.vendor := by
  have hperm : (stableSort ouiEntryLessThan list).Perm list := stableSort_perm list
  obtain ⟨i, hi, hget⟩ := List.getElem_of_mem (hperm.symm.subset he)
  have hcmp := compareAt_eq mac i hi
  rw [hget, heq, Nat.compare_eq_eq.mpr rfl] at hcmp
  have hfind : findEntry (SearchFn.landingOn i) (stableSort ouiEntryLessThan list) mac = some i :=
    if_pos ⟨hi, hcmp⟩
  refine ⟨SearchFn.landingOn i, ?_⟩
  simp only [loaded, lookup, hfind, List.getElem?_eq_getElem hi, hget, Option.map_some]

theorem loadFile_ok {db db' : OuiDatabase} {file : Option Bytes}
    (h : db.loadFile file = (.ok (), db')) :
    ∃ content, file = some content ∧ db' = loaded (manufEntries content) := by
  unfold loadFile readFileContent at h
  cases file with
  | none => simp at h
  | some content =>
    refine ⟨content, rfl, ?_⟩
    by_cases hsize : content.length > 64 * 1024 * 1024
    · simp [hsize] at h
    · simp only [hsize, if_false] at h
      exact (Prod.mk.inj h).2.symm

end OuiDatabase

end NetScanner.Oui
