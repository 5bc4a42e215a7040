import NetScanner.Tables.Packing
import Mathlib.Data.List.TakeWhile

/-!
# Loading and packing a manuf file

A manuf text is read by two parsers: `parse_and_pack` at build time and `loadFile` at run time.

On plain text a line the packer takes, the loader takes too, with the same octets and the same
vendor (`parseManufLine_of_packLine`). The loader takes more: it does not look at what follows
the third octet, and an octet may have one digit. It keeps every entry, so where the lines for
one prefix name several vendors, a lookup gives whichever the search comes to.

`loadAgrees_iff` is when a loaded file agrees with the packed one: the lines the loader reads as
an entry for the address all name the vendor of the first line the packer reads as one.
-/

namespace NetScanner.Oui

open Infra PackedDb Net

/-! ## Plain text -/

/-- Printable ASCII, or a tab. -/
def PlainByte (b : UInt8) : Prop := b = 9 ∨ (32 ≤ b ∧ b ≤ 126)

/-- `\n`-separated lines of printable ASCII and tabs. -/
def PlainText (text : Bytes) : Prop := ∀ b ∈ text, b = 10 ∨ PlainByte b

instance (b : UInt8) : Decidable (PlainByte b) := inferInstanceAs (Decidable (_ ∨ _))

instance (text : Bytes) : Decidable (PlainText text) := List.decidableBAll _ text

/-- The white space of plain text is the blank and the tab, whoever asks. -/
theorem isSpace_plain {b : UInt8} (h : PlainByte b) :
    isSpace b = anyOf " \t" b ∧ anyOf " \t\r" b = anyOf " \t" b := by
  have hall : ∀ n < 256, PlainByte (UInt8.ofNat n) →
      isSpace (UInt8.ofNat n) = anyOf " \t" (UInt8.ofNat n) ∧
        anyOf " \t\r" (UInt8.ofNat n) = anyOf " \t" (UInt8.ofNat n) := by
    decide +kernel
  exact forall_byte (P := fun b => PlainByte b →
    isSpace b = anyOf " \t" b ∧ anyOf " \t\r" b = anyOf " \t" b) hall b h

/-! ## The octets -/

theorem hexPair_digits {a b o : UInt8} (h : hexPair a b = some o) :
    ∃ x y, hexDigit a = some x ∧ hexDigit b = some y ∧ o = UInt8.ofNat (x * 16 + y) := by
  unfold hexPair at h
  split at h
  · next x y hx hy => exact ⟨x, y, hx, hy, (Option.some.inj h).symm⟩
  · simp at h

theorem parseOctet_hexPair {a b o : UInt8} (h : hexPair a b = some o) :
    parseOctet [a, b] = some o := by
  obtain ⟨x, y, hx, hy, rfl⟩ := hexPair_digits h
  rw [parseOctet, if_neg (by simp), parseInt_pair hx hy]

/-- An octet is one token of the loader's. -/
theorem nextToken_octet {a b o : UInt8} (h : hexPair a b = some o) (rest : Bytes)
    (hrest : ∀ c, rest.head? = some c → anyOf ":-" c = true) :
    nextToken (anyOf ":-") (a :: b :: rest) = some ([a, b], rest) := by
  obtain ⟨x, y, hx, hy, -⟩ := hexPair_digits h
  exact nextToken_hexPair (by decide) hx hy hrest

theorem not_blank_of_hexPair {a b o : UInt8} (h : hexPair a b = some o) :
    anyOf " \t" a = false ∧ anyOf " \t" b = false := by
  obtain ⟨x, y, hx, hy, -⟩ := hexPair_digits h
  exact ⟨anyOf_of_hexDigit (by decide) hx, anyOf_of_hexDigit (by decide) hy⟩

theorem not_blank_of_sep {s : UInt8} (h : anyOf ":-" s = true) : anyOf " \t" s = false := by
  unfold anyOf at h
  rw [List.contains_iff_mem] at h
  have hsep : (ascii ":-").all (fun c => anyOf " \t" c = false) = true := by decide
  exact of_decide_eq_true (List.all_eq_true.mp hsep s h)

theorem matchPrefix_eq_some {line rest : Bytes} {octets : Prefix24}
    (h : matchPrefix line = some (octets, rest)) :
    ∃ a0 a1 s0 b0 b1 s1 c0 c1, line = a0 :: a1 :: s0 :: b0 :: b1 :: s1 :: c0 :: c1 :: rest ∧
      anyOf ":-" s0 = true ∧ anyOf ":-" s1 = true ∧ hexPair a0 a1 = some octets.o0 ∧
      hexPair b0 b1 = some octets.o1 ∧ hexPair c0 c1 = some octets.o2 := by
  unfold matchPrefix at h
  split at h
  · next a0 a1 s0 b0 b1 s1 c0 c1 tail =>
    split at h
    · next hsep =>
      rw [Bool.and_eq_true] at hsep
      split at h
      · next o0 o1 o2 h0 h1 h2 =>
        obtain ⟨rfl, rfl⟩ := Prod.mk.inj (Option.some.inj h)
        exact ⟨a0, a1, s0, b0, b1, s1, c0, c1, rfl, hsep.1, hsep.2, h0, h1, h2⟩
      · simp at h
    · simp at h
  · simp at h

/-- A prefix of the pattern is one token, and the loader reads it as the same octets. -/
theorem matchPrefix_spec {line rest : Bytes} {octets : Prefix24}
    (h : matchPrefix line = some (octets, rest)) :
    ∃ macStr, line = macStr ++ rest ∧ macStr ≠ [] ∧ (∀ b ∈ macStr, anyOf " \t" b = false) ∧
      parseOctets macStr = some octets := by
  obtain ⟨a0, a1, s0, b0, b1, s1, c0, c1, rfl, hs0, hs1, h0, h1, h2⟩ := matchPrefix_eq_some h
  refine ⟨[a0, a1, s0, b0, b1, s1, c0, c1], rfl, by simp, ?_, ?_⟩
  · obtain ⟨ha0, ha1⟩ := not_blank_of_hexPair h0
    obtain ⟨hb0, hb1⟩ := not_blank_of_hexPair h1
    obtain ⟨hc0, hc1⟩ := not_blank_of_hexPair h2
    simp [ha0, ha1, not_blank_of_sep hs0, hb0, hb1, not_blank_of_sep hs1, hc0, hc1]
  · -- the separators end the first two octets, the text the third
    have ht0 := nextToken_octet h0 [s0, b0, b1, s1, c0, c1] (by simp [hs0])
    have ht1 := nextToken_octet h1 [s1, c0, c1] (by simp [hs1])
    have ht2 := nextToken_octet h2 [] (by simp)
    simp only [parseOctets, ht0, nextToken_cons hs0, ht1, nextToken_cons hs1, ht2,
      parseOctet_hexPair h0, parseOctet_hexPair h1, parseOctet_hexPair h2,
      Option.bind_eq_bind, Option.bind_some, Option.pure_def]

/-! ## The names -/

/-- **What the pattern reads**: a gap, the short name, and a tail the long name is taken from. -/
theorem matchNames_eq_some {rest shortName : Bytes} {longName : Option Bytes}
    (h : matchNames rest = some (shortName, longName)) :
    ∃ gap tail, rest = gap ++ (shortName ++ tail) ∧ (∀ b ∈ gap, isSpace b = true) ∧ gap ≠ [] ∧
      shortName ≠ [] ∧ (∀ b ∈ shortName, isSpace b = false) ∧
      (∀ b, tail.head? = some b → isSpace b = true) ∧
      vendorName shortName longName =
        if tail.dropWhile isSpace = [] then shortName
        else trim isSpace (tail.dropWhile isSpace) := by
  have hparts : rest = rest.takeWhile isSpace ++
      ((rest.dropWhile isSpace).takeWhile (!isSpace ·) ++
        (rest.dropWhile isSpace).dropWhile (!isSpace ·)) := by
    rw [List.takeWhile_append_dropWhile, List.takeWhile_append_dropWhile]
  have hsolid : ∀ b ∈ (rest.dropWhile isSpace).takeWhile (!isSpace ·), isSpace b = false := by
    intro b hb
    simpa using List.mem_takeWhile_imp hb
  have hhead : ∀ b, ((rest.dropWhile isSpace).dropWhile (!isSpace ·)).head? = some b →
      isSpace b = true := by
    intro b hb
    simpa using head?_dropWhile_not hb
  unfold matchNames at h
  simp only at h
  split at h
  · simp at h
  · next hgap =>
    split at h
    · simp at h
    · next hshort =>
      generalize (rest.dropWhile isSpace).takeWhile (!isSpace ·) = short at h hsolid hshort hparts
      generalize (rest.dropWhile isSpace).dropWhile (!isSpace ·) = tail at h hhead hparts
      have hname : shortName = short ∧ vendorName short longName =
          if tail.dropWhile isSpace = [] then short
          else trim isSpace (tail.dropWhile isSpace) := by
        cases tail with
        | nil =>
          obtain ⟨rfl, rfl⟩ := Prod.mk.inj (Option.some.inj h)
          exact ⟨rfl, trim_of_none hsolid⟩
        | cons b bs =>
          obtain ⟨rfl, rfl⟩ := Prod.mk.inj (Option.some.inj h)
          refine ⟨rfl, ?_⟩
          generalize (b :: bs).dropWhile isSpace = long
          cases long with
          | nil => exact trim_of_none hsolid
          | cons c cs => exact trim_trim _
      obtain ⟨rfl, hvendor⟩ := hname
      exact ⟨_, tail, hparts, fun b hb => List.mem_takeWhile_imp hb, hgap, hshort, hsolid, hhead,
        hvendor⟩

/-- On plain text, the names of the pattern are the loader's second token and what follows
it. -/
theorem matchNames_spec {rest shortName : Bytes} {longName : Option Bytes}
    (hplain : ∀ b ∈ rest, PlainByte b) (h : matchNames rest = some (shortName, longName)) :
    (∀ b, rest.head? = some b → anyOf " \t" b = true) ∧
      ∃ tail, nextToken (anyOf " \t") rest = some (shortName, tail) ∧
        vendorName shortName longName =
          if (tail.dropWhile (anyOf " \t")).length > 0
          then trim (anyOf " \t") (tail.dropWhile (anyOf " \t")) else shortName := by
  obtain ⟨gap, tail, rfl, hgap, hne, hshort, hsolid, hhead, hvendor⟩ := matchNames_eq_some h
  have hspace : ∀ b ∈ gap ++ (shortName ++ tail), isSpace b = anyOf " \t" b := fun b hb =>
    (isSpace_plain (hplain b hb)).1
  have hblank : ∀ b ∈ gap, anyOf " \t" b = true := by
    intro b hb
    rw [← hspace b (List.mem_append_left _ hb)]
    exact hgap b hb
  have hword : ∀ b ∈ shortName, anyOf " \t" b = false := by
    intro b hb
    rw [← hspace b (by simp [hb])]
    exact hsolid b hb
  have hspaceTail : ∀ b ∈ tail, isSpace b = anyOf " \t" b := fun b hb => hspace b (by simp [hb])
  have hstop : ∀ b, tail.head? = some b → anyOf " \t" b = true := by
    intro b hb
    rw [← hspaceTail b (List.mem_of_head? hb)]
    exact hhead b hb
  have hspaceLong : ∀ b ∈ tail.dropWhile isSpace, isSpace b = anyOf " \t" b := fun b hb =>
    hspaceTail b ((List.dropWhile_sublist _).subset hb)
  refine ⟨?_, tail, ?_, ?_⟩
  · intro b hb
    rw [List.head?_append_of_ne_nil _ hne] at hb
    exact hblank b (List.mem_of_head? hb)
  · rw [nextToken_skip hblank, nextToken_append hshort hword hstop]
  · rw [hvendor, trim_congr hspaceLong, dropWhile_congr hspaceTail]
    by_cases hlong : tail.dropWhile (anyOf " \t") = []
    · rw [if_pos hlong, if_neg (by simp [hlong])]
    · rw [if_neg hlong, if_pos (List.length_pos_iff.mpr hlong)]

/-- **A line the packer takes, the loader takes too.** -/
theorem parseManufLine_of_packLine {rawLine : Bytes} (hplain : ∀ b ∈ rawLine, PlainByte b)
    {entry : OuiEntry} (h : packLine rawLine = some entry) :
    parseManufLine rawLine = some entry := by
  have htrim : trim (anyOf " \t\r") rawLine = trim isSpace rawLine := by
    apply trim_congr
    intro b hb
    obtain ⟨h1, h2⟩ := isSpace_plain (hplain b hb)
    rw [h1, h2]
  unfold packLine at h
  unfold parseManufLine
  rw [htrim]
  have hline : ∀ b ∈ trim isSpace rawLine, PlainByte b := fun b hb => hplain b (mem_of_mem_trim hb)
  generalize trim isSpace rawLine = line at h hline ⊢
  simp only at h ⊢
  split at h
  · simp at h
  · next hcomment =>
    rw [if_neg hcomment]
    simp only [Option.bind_eq_bind, Option.bind_eq_some_iff] at h
    obtain ⟨⟨octets, rest⟩, hpre, ⟨shortName, longName⟩, hnames, hentry⟩ := h
    obtain ⟨macStr, rfl, hne, hblank, hoctets⟩ := matchPrefix_spec hpre
    have hrest : ∀ b ∈ rest, PlainByte b := fun b hb => hline b (List.mem_append_right _ hb)
    obtain ⟨hstart, tail, htoken, hvendor⟩ := matchNames_spec hrest hnames
    rw [hvendor] at hentry
    simp only [nextToken_append hne hblank hstart, htoken, hoctets, Option.bind_eq_bind,
      Option.bind_some]
    exact hentry

/-! ## The file -/

/-- A line of plain text. -/
theorem plain_line {text line : Bytes} (hplain : PlainText text) (hline : line ∈ text.splitOn 10) :
    ∀ b ∈ line, PlainByte b := by
  intro b hb
  obtain ⟨hmem, hne⟩ := mem_splitOn hline hb
  exact (hplain b hmem).resolve_left hne

theorem packLine_nil : packLine [] = none := by decide

/-- The packer's lines are the loader's. -/
theorem tempEntries_eq {text : Bytes} (hplain : PlainText text) :
    tempEntries text = (text.splitOn 10).filterMap packLine := by
  apply filterMap_splitlines packLine_nil
  intro b hb hbreak
  rcases hplain b hb with h | rfl | ⟨h1, -⟩
  · exact h
  · revert hbreak
    decide
  · exfalso
    have h31 : ¬b ≤ 13 ∧ ¬b ≤ 30 := by
      simp only [UInt8.le_iff_toNat_le, Nat.not_le] at h1 ⊢
      exact ⟨Nat.lt_of_lt_of_le (by decide) h1, Nat.lt_of_lt_of_le (by decide) h1⟩
    simp [lineBreak, h31.1, h31.2] at hbreak

/-- An entry of the packer's is one of the loader's. -/
theorem mem_manufEntries {text : Bytes} (hplain : PlainText text) {entry : OuiEntry}
    (h : entry ∈ tempEntries text) : entry ∈ manufEntries text := by
  rw [tempEntries_eq hplain, List.mem_filterMap] at h
  obtain ⟨line, hline, hpack⟩ := h
  unfold manufEntries
  rw [List.mem_filterMap]
  exact ⟨line, hline, parseManufLine_of_packLine (plain_line hplain hline) hpack⟩

/-- The loaded file gives what the packed table gives. -/
def LoadAgrees (table : Table) (db : OuiDatabase) (search : SearchFn) (embedded : Table)
    (mac : Mac) : Prop :=
  ∀ vendor, lookupEmbeddedVendor table mac = some vendor →
    db.lookup search embedded mac = some vendor

/-- Every line that reads as an entry for the address names the vendor of the first 24-bit line
for it. -/
def OneVendor (text : Bytes) (mac : Mac) : Prop :=
  ∀ first, (tempEntries text).find? (fun e => e.octets = target mac) = some first →
    ∀ line ∈ text.splitOn 10, ∀ entry, parseManufLine line = some entry →
      entry.octets = target mac → entry.vendor = first.vendor

/-- **A loaded file agrees with the packed one, whichever entry the search comes to, exactly when
the lines for the address name one vendor.** -/
theorem loadAgrees_iff {text bytes : Bytes} {table : Table} {db db' : OuiDatabase}
    (hplain : PlainText text) (hnames : ∀ e ∈ tempEntries text, e.vendor.length ≤ 255)
    (hpack : parseAndPack text = some bytes) (hopen : openOui bytes = .ok table)
    (hload : db.loadFile (some text) = (.ok (), db')) (embedded : Table) (mac : Mac) :
    (∀ search, LoadAgrees table db' search embedded mac) ↔ OneVendor text mac := by
  obtain ⟨bytes', table', hpack', hopen', hlookup⟩ := parseAndPack_reads text
  obtain rfl : bytes = bytes' := Option.some.inj (hpack.symm.trans hpack')
  obtain rfl : table = table' := Except.ok.inj (hopen.symm.trans hopen')
  obtain ⟨content, hcontent, rfl⟩ := OuiDatabase.loadFile_ok hload
  obtain rfl := Option.some.inj hcontent
  have hfirst : ∀ first, (tempEntries text).find? (fun e => e.octets = target mac) = some first →
      first ∈ manufEntries text ∧ first.octets = target mac ∧
        lookupEmbeddedVendor table mac = some first.vendor := by
    intro first hfind
    have hmem := List.mem_of_find?_eq_some hfind
    refine ⟨mem_manufEntries hplain hmem, by simpa using List.find?_some hfind, ?_⟩
    rw [hlookup mac, hfind, Option.map_some, cut_of_le (hnames first hmem)]
  constructor
  · intro hagrees first hfind line hline entry hparse hoctets
    obtain ⟨-, -, hpacked⟩ := hfirst first hfind
    -- a search may come to this very entry
    have hentry : entry ∈ manufEntries text := List.mem_filterMap.mpr ⟨line, hline, hparse⟩
    obtain ⟨search, hsearch⟩ := OuiDatabase.exists_lookup_loaded hentry hoctets embedded
    have hsome := hagrees search first.vendor hpacked
    rw [hsearch] at hsome
    exact Option.some.inj hsome
  · intro hone search vendor hvendor
    have hpacked := hlookup mac
    cases hfind : (tempEntries text).find? (fun e => e.octets = target mac) with
    | none =>
      rw [hvendor, hfind] at hpacked
      simp at hpacked
    | some first =>
      obtain ⟨hmem, hoctets, hpacked⟩ := hfirst first hfind
      rw [hvendor, Option.some.injEq] at hpacked
      rcases OuiDatabase.lookup_loaded (manufEntries text) search embedded mac with
        ⟨entry, hentry, hentryOctets, hget⟩ | ⟨hnone, -⟩
      · obtain ⟨line, hline, hparse⟩ := List.mem_filterMap.mp hentry
        rw [hget, hpacked, hone first hfind line hline entry hparse hentryOctets]
      · exact absurd hoctets (hnone first hmem)

/-- A manuf file with one prefix and one address block of it. -/
def blockText : Bytes :=
  ascii "00:1B:C5 IEEERegi IEEE Registration\n00:1B:C5:00:00:00/36 Convergi Converging Systems"

def blockMac : Mac := #v[0x00, 0x1B, 0xC5, 0x40, 0x00, 0x01]

/-- An address outside the block gets the block's vendor: the packed table knows the prefix's,
and the loop of `binarySearch` comes to the line of the block. -/
theorem block_overrides_prefix :
    PlainText blockText ∧ (∀ e ∈ tempEntries blockText, e.vendor.length ≤ 255) ∧
      ∃ bytes table db, parseAndPack blockText = some bytes ∧ openOui bytes = .ok table ∧
        OuiDatabase.init.loadFile (some blockText) = (.ok (), db) ∧
        lookupEmbeddedVendor table blockMac = some (ascii "IEEE Registration") ∧
        db.lookup bisect table blockMac = some (ascii "Converging Systems") ∧
        ¬LoadAgrees table db bisect table blockMac := by
  obtain ⟨bytes, table, hpack, hopen, hlookup⟩ := parseAndPack_reads blockText
  have hpacked : lookupEmbeddedVendor table blockMac = some (ascii "IEEE Registration") := by
    rw [hlookup]
    decide
  have hentries : manufEntries blockText =
      [⟨⟨0x00, 0x1B, 0xC5⟩, ascii "IEEE Registration"⟩,
        ⟨⟨0x00, 0x1B, 0xC5⟩, ascii "Converging Systems"⟩] := by decide
  have hfound : (OuiDatabase.loaded (manufEntries blockText)).lookup bisect table blockMac =
      some (ascii "Converging Systems") := by
    rw [hentries]
    rfl
  refine ⟨by decide, by decide, bytes, table, OuiDatabase.loaded (manufEntries blockText), hpack,
    hopen, rfl, hpacked, hfound, ?_⟩
  intro hagrees
  have hsome := hfound.symm.trans (hagrees _ hpacked)
  revert hsome
  decide

/-- A file whose lines for the address name one vendor. -/
def oneVendorText : Bytes :=
  ascii "# vendors\n00:11:22 TestCorp Test Corporation\n0-11-22 Other\tTest Corporation"

def oneVendorMac : Mac := #v[0x00, 0x11, 0x22, 0xAA, 0xBB, 0xCC]

theorem loadAgrees_one_vendor :
    ∃ bytes table db, parseAndPack oneVendorText = some bytes ∧ openOui bytes = .ok table ∧
      OuiDatabase.init.loadFile (some oneVendorText) = (.ok (), db) ∧
      lookupEmbeddedVendor table oneVendorMac = some (ascii "Test Corporation") ∧
      ∀ search, LoadAgrees table db search table oneVendorMac := by
  obtain ⟨bytes, table, hpack, hopen, hlookup⟩ := parseAndPack_reads oneVendorText
  have hload : OuiDatabase.init.loadFile (some oneVendorText) =
      (.ok (), OuiDatabase.loaded (manufEntries oneVendorText)) := rfl
  have hpacked : lookupEmbeddedVendor table oneVendorMac = some (ascii "Test Corporation") := by
    rw [hlookup]
    decide
  have htemp : tempEntries oneVendorText =
      [⟨⟨0x00, 0x11, 0x22⟩, ascii "Test Corporation"⟩] := by decide
  have hentries : manufEntries oneVendorText =
      [⟨⟨0x00, 0x11, 0x22⟩, ascii "Test Corporation"⟩,
        ⟨⟨0x00, 0x11, 0x22⟩, ascii "Test Corporation"⟩] := by decide
  have hone : OneVendor oneVendorText oneVendorMac := by
    intro first hfirst line hline entry hparse _
    have hmem := List.mem_of_find?_eq_some hfirst
    have hentry : entry ∈ manufEntries oneVendorText := List.mem_filterMap.mpr ⟨line, hline, hparse⟩
    rw [htemp, List.mem_singleton] at hmem
    rw [hentries] at hentry
    rcases List.mem_cons.mp hentry with rfl | hentry
    · rw [hmem]
    · rw [List.mem_singleton.mp hentry, hmem]
  exact ⟨bytes, table, OuiDatabase.loaded (manufEntries oneVendorText), hpack, hopen, hload,
    hpacked, (loadAgrees_iff (by decide) (by decide) hpack hopen hload table _).mpr hone⟩

end NetScanner.Oui
