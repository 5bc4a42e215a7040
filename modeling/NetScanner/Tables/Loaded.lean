import NetScanner.Tables.Oui

/-!
# Looking up in a loaded file

`src/core/oui.zig`: the lines of a manuf file that name an address, and what `lookup` finds after
`loadFile`. The order of `ouiEntryLessThan` and the order of `comparePrefix` are both the order of
the prefixes as numbers, so the search is given a slice that is ordered for it (`lookup_loaded`).
-/

namespace NetScanner.Oui

open Infra PackedDb Net

/-- A line of the text names `vendor` for the address. -/
def NamesVendor (content : Bytes) (mac : Mac) (vendor : Bytes) : Prop :=
  ∃ line ∈ content.splitOn 10, ∃ e, parseManufLine line = some e ∧ e.octets = target mac ∧
    e.vendor = vendor

/-- The lines for an address and the entries for it. -/
theorem namesVendor_iff {content : Bytes} {mac : Mac} {vendor : Bytes} :
    NamesVendor content mac vendor ↔
      ∃ e ∈ manufEntries content, e.octets = target mac ∧ e.vendor = vendor := by
  unfold NamesVendor manufEntries
  simp only [List.mem_filterMap]
  constructor
  · rintro ⟨line, hline, e, hparse, hoctets, hvendor⟩
    exact ⟨e, ⟨line, hline, hparse⟩, hoctets, hvendor⟩
  · rintro ⟨e, ⟨line, hline, hparse⟩, hoctets, hvendor⟩
    exact ⟨line, hline, e, hparse, hoctets, hvendor⟩

namespace OuiDatabase

/-- **A load forgets what was loaded before**, whether it succeeds or not. -/
theorem loadFile_forgets (db db' : OuiDatabase) (file : Option Bytes) :
    db.loadFile file = db'.loadFile file := rfl

/-- A file of at most 64 MB is loaded. -/
theorem loadFile_of_le (db : OuiDatabase) (content : Bytes)
    (h : content.length ≤ 64 * 1024 * 1024) :
    db.loadFile (some content) = (.ok (), loaded (manufEntries content)) := by
  have hread : readFileContent (some content) = some content := if_neg (Nat.not_lt.mpr h)
  unfold loadFile
  rw [hread]
  rfl

/-- **A loaded file answers lookups**, and the file before it does not. -/
theorem lookup_loadFile {db db' : OuiDatabase} {content : Bytes}
    (h : db.loadFile (some content) = (.ok (), db')) (search : SearchFn) (embedded : Table)
    (mac : Mac) :
    ((∃ vendor, NamesVendor content mac vendor) →
      ∃ vendor, NamesVendor content mac vendor ∧ db'.lookup search embedded mac = some vendor) ∧
    ((∀ vendor, ¬NamesVendor content mac vendor) →
      db'.lookup search embedded mac = lookupEmbeddedVendor embedded mac) ∧
    ∀ before : OuiDatabase, before.loadFile (some content) = (.ok (), db') := by
  obtain ⟨content', hcontent, rfl⟩ := loadFile_ok h
  obtain rfl : content = content' := Option.some.inj hcontent
  have hlookup := lookup_loaded (manufEntries content) search embedded mac
  refine ⟨?_, ?_, fun before => (loadFile_forgets before db _).trans h⟩
  · rintro ⟨vendor, hnames⟩
    obtain ⟨e, he, hoctets, -⟩ := namesVendor_iff.mp hnames
    rcases hlookup with ⟨e', he', hoctets', hfound⟩ | ⟨hnone, -⟩
    · exact ⟨e'.vendor, namesVendor_iff.mpr ⟨e', he', hoctets', rfl⟩, hfound⟩
    · exact absurd hoctets (hnone e he)
  · intro hnone
    rcases hlookup with ⟨e, he, hoctets, -⟩ | ⟨-, hfound⟩
    · exact absurd (namesVendor_iff.mpr ⟨e, he, hoctets, rfl⟩) (hnone e.vendor)
    · exact hfound

/-- A file whose second line names a vendor. -/
def sampleFile : Bytes := ascii "# a comment\n00-11-22\tSecond\nnot an entry"

/-- An address of that vendor. -/
def sampleMac : Mac := #v[0x00, 0x11, 0x22, 0x33, 0x44, 0x55]

/-- The file before it had another name for the address. -/
theorem lookup_loadFile_again :
    ((loaded (manufEntries (ascii "00:11:22 First"))).loadFile (some sampleFile)).2.lookup bisect
      ⟨0, packedEntrySize, [], []⟩ sampleMac = some (ascii "Second") := by
  have hentries : manufEntries sampleFile = [⟨⟨0x00, 0x11, 0x22⟩, ascii "Second"⟩] := by
    decide +kernel
  have hload := loadFile_of_le (loaded (manufEntries (ascii "00:11:22 First"))) sampleFile
    (by decide)
  have hline : NamesVendor sampleFile sampleMac (ascii "Second") := by
    rw [namesVendor_iff, hentries]
    exact ⟨_, List.mem_singleton_self _, by decide, rfl⟩
  obtain ⟨vendor, hnames, hfound⟩ :=
    (lookup_loadFile hload bisect ⟨0, packedEntrySize, [], []⟩ sampleMac).1 ⟨_, hline⟩
  rw [namesVendor_iff, hentries] at hnames
  obtain ⟨e, he, -, rfl⟩ := hnames
  rw [List.mem_singleton.mp he] at hfound
  rw [hload]
  exact hfound

end OuiDatabase

end NetScanner.Oui
