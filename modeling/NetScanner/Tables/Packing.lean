import NetScanner.Tables.Manuf

/-!
# The packed table reads back

The table `parse_and_pack` writes, opened by `packed_db.open` and searched by
`lookupEmbeddedVendor`, gives the vendor of the first entry of the text for the address.

A record is right for an entry when it has the entry's octets and its name's length and offset,
and the pool holds the name there (`RecordOf`). The pool only grows at its end, so a record that
is right stays right (`RecordOf.append`), and after the loop every record is
(`foldlM_packEntry`).

No number overflows: there are at most `2 ^ 24` prefixes, and a name has at most 255 bytes.
-/

namespace NetScanner.Oui

open Infra PackedDb Net

/-- The record of an entry, with its name in the pool. -/
def RecordOf (strings : Bytes) (entry : OuiEntry) (bytes : Bytes) : Prop :=
  ∃ offset < 2 ^ 32,
    bytes = entry.octets.bytes ++ (leBytes 1 (cut entry.vendor).length ++ leBytes 4 offset) ∧
      Holds strings offset (cut entry.vendor)

theorem RecordOf.append {strings bytes : Bytes} {entry : OuiEntry}
    (h : RecordOf strings entry bytes) (more : Bytes) : RecordOf (strings ++ more) entry bytes := by
  obtain ⟨offset, hlt, hbytes, hholds⟩ := h
  exact ⟨offset, hlt, hbytes, hholds.append more⟩

theorem RecordOf.length {strings bytes : Bytes} {entry : OuiEntry}
    (h : RecordOf strings entry bytes) : bytes.length = packedEntrySize := by
  obtain ⟨offset, -, rfl, -⟩ := h
  simp [Prefix24.bytes, packedEntrySize]

theorem length_cut (vendor : Bytes) : (cut vendor).length ≤ 255 := by
  unfold cut
  split
  · rw [List.length_take]
    exact Nat.min_le_left _ _
  · omega

theorem cut_of_le {vendor : Bytes} (h : vendor.length ≤ 255) : cut vendor = vendor := by
  rw [cut, if_neg (by omega)]

/-- One turn of the packer's loop. -/
theorem packEntry_spec {p : Packing} (hsound : p.pool.Sound id) (entry : OuiEntry)
    (hsize : p.pool.strings.length + 255 < 2 ^ 32) :
    ∃ p' bytes more, packEntry p entry = some p' ∧ p'.pool.Sound id ∧
      p'.pool.strings = p.pool.strings ++ more ∧ more.length ≤ 255 ∧
      p'.packedEntries = p.packedEntries ++ bytes ∧ RecordOf p'.pool.strings entry bytes := by
  obtain ⟨hsound', hholds, more, hmore, hlen⟩ := Pool.intern_spec id hsound (cut entry.vendor)
  simp only [id_eq] at hholds hlen
  have hcut := length_cut entry.vendor
  have hoffset : (p.pool.intern id (cut entry.vendor)).2 < 2 ^ 32 := by
    have hfits := hholds.fits
    rw [hmore, List.length_append] at hfits
    omega
  refine ⟨{ pool := (p.pool.intern id (cut entry.vendor)).1, packedEntries := _ },
    entry.octets.bytes ++ (leBytes 1 (cut entry.vendor).length ++
      leBytes 4 (p.pool.intern id (cut entry.vendor)).2),
    more, ?_, hsound', hmore, Nat.le_trans hlen hcut, rfl, _, hoffset, rfl, hholds⟩
  simp only [packEntry, entryBytes, packU8, packU32, if_pos hoffset,
    if_pos (show (cut entry.vendor).length < 2 ^ 8 by omega)]
  rfl

/-- **The whole loop**: one record for each entry, each with its name in the final pool. -/
theorem foldlM_packEntry {p : Packing} (hsound : p.pool.Sound id) (entries : List OuiEntry)
    (hsize : p.pool.strings.length + 255 * entries.length < 2 ^ 32) :
    ∃ p' records more, entries.foldlM packEntry p = some p' ∧
      p'.pool.strings = p.pool.strings ++ more ∧ more.length ≤ 255 * entries.length ∧
      p'.packedEntries = p.packedEntries ++ records.flatten ∧
      List.Forall₂ (RecordOf p'.pool.strings) entries records :=
  Pool.foldlM_records Packing.pool Packing.packedEntries (fun _ _ _ more h => h.append more)
    (fun _ entry hs _ hsize => packEntry_spec hs entry hsize) entries hsound
    (fun _ _ => trivial) hsize

/-! ## Searching the table -/

section Lookup

variable {entries : List OuiEntry} {records : List Bytes} {strings : Bytes}

/-- The table of the records. -/
def tableOf (records : List Bytes) (strings : Bytes) : Table where
  entryCount := records.length
  recordSize := packedEntrySize
  records := records.flatten
  strings := strings

theorem recordOf_getElem (hall : List.Forall₂ (RecordOf strings) entries records) {i : Nat}
    (hi : i < records.length) :
    ∃ hi' : i < entries.length, RecordOf strings entries[i] records[i] := by
  have hi' : i < entries.length := by
    rw [hall.length_eq]
    exact hi
  exact ⟨hi', hall.get hi' hi⟩

theorem length_record (hall : List.Forall₂ (RecordOf strings) entries records) :
    ∀ bytes ∈ records, bytes.length = packedEntrySize := by
  intro bytes hmem
  obtain ⟨i, hi, rfl⟩ := List.getElem_of_mem hmem
  obtain ⟨_, hrecord⟩ := recordOf_getElem hall hi
  exact hrecord.length

theorem record_tableOf (hall : List.Forall₂ (RecordOf strings) entries records) {i : Nat}
    (hi : i < records.length) : (tableOf records strings).record i = records[i] :=
  slice_flatten (length_record hall) hi

/-- What a record says: the octets, the length of the name and its offset. -/
theorem RecordOf.read {bytes : Bytes} {entry : OuiEntry} (h : RecordOf strings entry bytes) :
    slice bytes 0 3 = entry.octets.bytes ∧
      (bytes.getD 3 0).toNat = (cut entry.vendor).length ∧
      Holds strings (readU32 bytes 4) (cut entry.vendor) := by
  obtain ⟨offset, hlt, rfl, hholds⟩ := h
  have hcut := length_cut entry.vendor
  refine ⟨rfl, ?_, ?_⟩
  · simp only [Prefix24.bytes, leBytes, List.cons_append, List.nil_append, List.getD_cons_succ,
      List.getD_cons_zero, UInt8.toNat_ofNat']
    omega
  · have hoff : readU32 (entry.octets.bytes ++ (leBytes 1 (cut entry.vendor).length ++
        leBytes 4 offset)) 4 = offset := by
      have hstart : (entry.octets.bytes ++ leBytes 1 (cut entry.vendor).length).length = 4 := rfl
      have := readU32_append [] hstart hlt
      rwa [List.append_nil, List.append_assoc] at this
    rwa [hoff]

/-- The search compares the octets of the entries. -/
theorem compare_record (hall : List.Forall₂ (RecordOf strings) entries records) (mac : Mac)
    {i : Nat} (hi : i < entries.length) :
    memOrder (target mac).bytes (slice ((tableOf records strings).record i) 0 3) =
      compare (target mac).value entries[i].octets.value := by
  have hi' : i < records.length := by
    rw [← hall.length_eq]
    exact hi
  obtain ⟨_, hrecord⟩ := recordOf_getElem hall hi'
  rw [record_tableOf hall hi', hrecord.read.1, memOrder_bytes]

/-- **A lookup in the packed table gives the name of the entry for the address.** -/
theorem lookupEmbeddedVendor_tableOf (hall : List.Forall₂ (RecordOf strings) entries records)
    (hasc : entries.Pairwise fun a b => a.octets.value < b.octets.value) (mac : Mac) :
    lookupEmbeddedVendor (tableOf records strings) mac =
      (entries.find? fun e => e.octets = target mac).map fun e => cut e.vendor := by
  have hcmp : ∀ i (hi : i < entries.length),
      memOrder (target mac).bytes (slice ((tableOf records strings).record i) 0 3) =
        compare (target mac).value entries[i].octets.value := fun i hi => compare_record hall mac hi
  have hcount : (tableOf records strings).entryCount = entries.length := hall.length_eq.symm
  unfold lookupEmbeddedVendor
  cases hfind : entries.find? fun e => e.octets = target mac with
  | none =>
    have hmiss : ∀ e ∈ entries, e.octets.value ≠ (target mac).value := by
      intro e he heq
      have hne := List.find?_eq_none.mp hfind e he
      exact hne (decide_eq_true (Prefix24.value_inj heq))
    simp only [hcount, binarySearch_of_forall_ne hcmp hmiss]
    rfl
  | some e =>
    have hoctets : e.octets = target mac := by simpa using List.find?_some hfind
    obtain ⟨mid, hmid, hsearch, rfl⟩ :=
      binarySearch_of_mem hasc hcmp (List.mem_of_find?_eq_some hfind) (by rw [hoctets])
    have hmid' : mid < records.length := by
      rw [← hall.length_eq]
      exact hmid
    obtain ⟨_, hrecord⟩ := recordOf_getElem hall hmid'
    obtain ⟨-, hlen, hholds⟩ := hrecord.read
    have hfits : ¬readU32 records[mid] 4 + (cut entries[mid].vendor).length >
        (tableOf records strings).strings.length := Nat.not_lt.mpr hholds.fits
    simp only [hcount, hsearch, record_tableOf hall hmid', hlen]
    rw [if_neg hfits]
    exact congrArg some hholds.stands

end Lookup

/-! ## The file -/

theorem prefixLess_eq (a b : OuiEntry) :
    prefixLess a b = decide (a.octets.value < b.octets.value) := by
  unfold prefixLess
  rw [memOrder_bytes]
  by_cases h : a.octets.value < b.octets.value
  · simp [h, Nat.compare_eq_lt.mpr h]
  · have hne : compare a.octets.value b.octets.value ≠ .lt :=
      fun hcon => h (Nat.compare_eq_lt.mp hcon)
    simp [h, hne]

theorem uniqueEntries_ascending (entries : List OuiEntry) :
    (uniqueEntries entries).Pairwise fun a b => a.octets.value < b.octets.value :=
  keepFirst_ascending _ (fun _ _ h => Prefix24.value_inj h)
    (stableSort_sorted prefixLess_eq entries)

/-- The entry kept for a prefix is the first of the text. -/
theorem find?_uniqueEntries (entries : List OuiEntry) (octets : Prefix24) :
    (uniqueEntries entries).find? (fun e => e.octets = octets) =
      entries.find? fun e => e.octets = octets := by
  rw [uniqueEntries, find?_keepFirst (fun e : OuiEntry => e.octets) _ _ List.not_mem_nil,
    ← List.head?_filter, filter_stableSort prefixLess_eq, List.head?_filter]
  intro a b ha hb
  rw [decide_eq_true_eq] at ha hb
  rw [ha, hb]

theorem length_uniqueEntries (entries : List OuiEntry) :
    (uniqueEntries entries).length ≤ 2 ^ 24 :=
  length_le_of_ascending (uniqueEntries_ascending entries) fun e _ => e.octets.value_lt

/-- **The packer's file opens, and answers with the first entry of the text.** -/
theorem parseAndPack_reads (text : Bytes) :
    ∃ bytes table, parseAndPack text = some bytes ∧ openOui bytes = .ok table ∧
      ∀ mac, lookupEmbeddedVendor table mac =
        ((tempEntries text).find? fun e => e.octets = target mac).map fun e => cut e.vendor := by
  have hcount := length_uniqueEntries (tempEntries text)
  have hempty : ({} : Packing).pool.strings.length = 0 := rfl
  obtain ⟨p, records, more, hrun, hmore, hlen, hrecords, hall⟩ :=
    foldlM_packEntry (Pool.sound_empty id) (uniqueEntries (tempEntries text))
      (by rw [hempty]; omega) (p := {})
  rw [List.nil_append] at hmore hrecords
  have htable := length_flatten_of_size (length_record hall)
  have hpool : p.pool.strings.length < 2 ^ 32 := by
    rw [hmore]
    omega
  have hoffset : headerSize + records.flatten.length < 2 ^ 32 := by
    rw [htable, ← hall.length_eq, packedEntrySize, headerSize]
    omega
  have hn : (uniqueEntries (tempEntries text)).length < 2 ^ 32 := by omega
  refine ⟨headerBytes (ascii "NSOU") 1 (uniqueEntries (tempEntries text)).length
    records.flatten.length p.pool.strings.length ++ (records.flatten ++ p.pool.strings),
    tableOf records p.pool.strings, ?_, ?_, ?_⟩
  · unfold parseAndPack
    simp only [hrun, hrecords, Option.bind_eq_bind, Option.bind_some]
    rw [packHeader_eq (by decide) hn hoffset hpool, Option.bind_some]
    rfl
  · have hlayout := open_layout (show (ascii "NSOU").length = 4 by decide)
      (show 1 < 2 ^ 32 by decide) hn
      (by rw [htable, hall.length_eq]) hoffset hpool
    unfold openOui
    rw [hlayout, hall.length_eq]
    rfl
  · intro mac
    rw [lookupEmbeddedVendor_tableOf hall (uniqueEntries_ascending _), find?_uniqueEntries]

end NetScanner.Oui
