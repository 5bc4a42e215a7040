import NetScanner.Tables.PortPacking
import NetScanner.Ports.Table

/-!
# The port table survives packing

The file `pack` writes, read by its two readers. `packed_db.open` accepts it, `ports.lookup`
finds every port with its texts, `ports.rank` gives its rank, and `by_rank` lists the ranked
ports in their order (`Ranking.byRank?_entries`); `unpack` gives back the table and the ranks.

Everything is derived from `Layout`: a header, one right record for each port, and the pool.
-/

namespace NetScanner.Ports

open Infra PackedDb

/-! ## Searching the table -/

/-- The table of the records. -/
def portDb (records : List Bytes) (strings : Bytes) : Table where
  entryCount := records.length
  recordSize := portRecordSize
  records := records.flatten
  strings := strings

section Search

variable {merged : Merged} {ranking : Ranking merged} {records : List Bytes} {strings : Bytes}

theorem portRecord_getElem
    (hall : List.Forall₂ (PortRecord ranking.ranks strings) merged.items records) {i : Nat}
    (hi : i < merged.items.length) :
    (portDb records strings).record i = records.getD i [] ∧
      PortRecord ranking.ranks strings merged.items[i] (records.getD i []) := by
  have hi' : i < records.length := by
    rw [← hall.length_eq]
    exact hi
  have hsize : ∀ bytes ∈ records, bytes.length = portRecordSize := by
    intro bytes hmem
    obtain ⟨j, hj, rfl⟩ := List.getElem_of_mem hmem
    exact (hall.get (by rw [hall.length_eq]; exact hj) hj).length
  rw [List.getD_eq_getElem?_getD, List.getElem?_eq_getElem hi', Option.getD_some]
  exact ⟨slice_flatten hsize hi', hall.get hi hi'⟩

theorem portAt_portDb (hall : List.Forall₂ (PortRecord ranking.ranks strings) merged.items records)
    {i : Nat} (hi : i < merged.items.length) :
    portAt (portDb records strings) i = merged.items[i].1 := by
  obtain ⟨hrecord, hright⟩ := portRecord_getElem hall hi
  have := (merged.port_range _ (List.getElem_mem hi)).2
  rw [portAt, hrecord]
  exact hright.readPort (by omega)

theorem rankAt_portDb (hall : List.Forall₂ (PortRecord ranking.ranks strings) merged.items records)
    {i : Nat} (hi : i < merged.items.length) :
    rankAt (portDb records strings) i = (ranking.ranks merged.items[i].1).getD 0 := by
  obtain ⟨hrecord, hright⟩ := portRecord_getElem hall hi
  rw [rankAt, hrecord]
  exact hright.readRank (ranking.ranks_lt _)

/-- The search compares the ports of the items. -/
theorem compare_portAt (hall : List.Forall₂ (PortRecord ranking.ranks strings) merged.items records)
    (port i : Nat) (hi : i < merged.items.length) :
    compare port (portAt (portDb records strings) i) = compare port merged.items[i].1 := by
  rw [portAt_portDb hall hi]

/-- **A port of the table is found at its item.** -/
theorem indexOf_of_mem (hall : List.Forall₂ (PortRecord ranking.ranks strings) merged.items records)
    {item : Nat × Fields} (hitem : item ∈ merged.items) :
    ∃ i, ∃ hi : i < merged.items.length,
      indexOf (portDb records strings) item.1 = some i ∧ merged.items[i] = item := by
  have hcount : (portDb records strings).entryCount = merged.items.length := hall.length_eq.symm
  rw [indexOf, hcount]
  exact binarySearch_of_mem merged.ascending (compare_portAt hall item.1) hitem rfl

theorem indexOf_of_not_mem
    (hall : List.Forall₂ (PortRecord ranking.ranks strings) merged.items records) {port : Nat}
    (hport : port ∉ merged.ports) : indexOf (portDb records strings) port = none := by
  have hcount : (portDb records strings).entryCount = merged.items.length := hall.length_eq.symm
  rw [indexOf, hcount]
  refine binarySearch_of_forall_ne (compare_portAt hall port) fun item hitem heq => hport ?_
  rw [← heq]
  exact List.mem_map_of_mem hitem

/-- **A lookup gives what the table says of the port.** -/
theorem lookup_portDb (hall : List.Forall₂ (PortRecord ranking.ranks strings) merged.items records)
    {item : Nat × Fields} (hitem : item ∈ merged.items) :
    lookup (portDb records strings) item.1 = some (serviceOf item.2) := by
  obtain ⟨i, hi, hindex, rfl⟩ := indexOf_of_mem hall hitem
  obtain ⟨hrecord, hright⟩ := portRecord_getElem hall hi
  rw [lookup, hindex]
  show decode (portDb records strings) ((portDb records strings).record i) = _
  rw [hrecord]
  exact hright.decode (merged.named _ hitem)

theorem lookup_portDb_none
    (hall : List.Forall₂ (PortRecord ranking.ranks strings) merged.items records) {port : Nat}
    (hport : port ∉ merged.ports) : lookup (portDb records strings) port = none := by
  rw [lookup, indexOf_of_not_mem hall hport]
  rfl

/-- A port that is not in the table has no rank. -/
theorem Ranking.ranks_of_not_mem (ranking : Ranking merged) {port : Nat}
    (hport : port ∉ merged.ports) : ranking.ranks port = none := by
  cases h : ranking.ranks port with
  | none => rfl
  | some rank => exact absurd (ranking.known port (ranking.mem_of_ranks h)) hport

/-- **`rank` gives the rank of the port.** -/
theorem rank_portDb (hall : List.Forall₂ (PortRecord ranking.ranks strings) merged.items records)
    (port : Nat) : rank (portDb records strings) port = (ranking.ranks port).getD 0 := by
  unfold rank
  by_cases hport : port ∈ merged.ports
  · obtain ⟨item, hitem, rfl⟩ := List.mem_map.mp hport
    obtain ⟨i, hi, hindex, rfl⟩ := indexOf_of_mem hall hitem
    simp only [hindex]
    exact rankAt_portDb hall hi
  · simp only [indexOf_of_not_mem hall hport, ranking.ranks_of_not_mem hport]
    rfl

end Search

/-! ## Reading the file back -/

section Unpack

variable {merged : Merged} {ranking : Ranking merged} {records : List Bytes} {strings : Bytes}

/-- What `unpack` has after some of the items. -/
def unpacked (ranks : Nat → Option Nat) (items : List (Nat × Fields)) : Unpacked where
  result := fun port => items.lookup port
  ranks := fun port => (items.lookup port).bind fun _ => ranks port

/-- Every text of the table fits behind a length. -/
def Merged.Short (merged : Merged) : Prop :=
  ∀ item ∈ merged.items, ∀ text ∈ item.2.toList, (utf8 text).length ≤ 255

/-- A record of the file, its texts read. -/
theorem unpackRecord_eq {data : Bytes} {start : Nat} {item : Nat × Fields}
    {ranks : Nat → Option Nat}
    (h : PortRecord ranks strings item (slice data start (start + portRecordSize)))
    (hfits : start + portRecordSize ≤ data.length) (hport : item.1 < 2 ^ 16)
    (hrank : (ranks item.1).getD 0 < 2 ^ 16)
    (hshort : ∀ text ∈ item.2.toList, (utf8 text).length ≤ 255) :
    unpackRecord data strings start = some (item.1, (ranks item.1).getD 0, item.2) := by
  have hread : ∀ k, k + 4 ≤ portRecordSize →
      readU32 (slice data start (start + portRecordSize)) k = readU32 data (start + k) := by
    intro k hk
    rw [readU32, slice_slice _ _ hk]
    rfl
  have htext : ∀ k text, item.2.toList[k]? = some text →
      poolText strings (readU32 data (start + (4 + 4 * k))) = some text := by
    intro k text hk
    have hlt : k < 4 := (List.getElem?_eq_some_iff.mp hk).1
    have hat := h.readField hk
    rw [hread _ (by rw [portRecordSize]; omega)] at hat
    rw [poolText_eq hat, fit_of_le (hshort text (List.mem_of_getElem? hk))]
  have hport' : readU16 data start = item.1 := by
    have := h.readPort hport
    rwa [readU16, slice_slice _ _ (by decide)] at this
  have hrank' : readU16 data (start + 2) = (ranks item.1).getD 0 := by
    have := h.readRank hrank
    rwa [readU16, slice_slice _ _ (by decide)] at this
  have hlabel := htext 0 _ rfl
  have hiana := htext 1 _ rfl
  have hdescription := htext 2 _ rfl
  have hcategory := htext 3 _ rfl
  simp only [Nat.reduceMul, Nat.reduceAdd] at hlabel hiana hdescription hcategory
  unfold unpackRecord
  simp only [hlabel, hiana, hdescription, hcategory, hport', hrank', guard, if_pos hfits]
  rfl

theorem lookup_eq_none {items : List (Nat × Fields)} {port : Nat}
    (h : ∀ item ∈ items, item.1 < port) : items.lookup port = none := by
  rw [List.lookup_eq_none_iff]
  intro item hitem
  have := h item hitem
  rw [bne_iff_ne]
  omega

/-- One turn of the loop, on the record of the next item. -/
theorem unpackPort_eq {data : Bytes} {tableOffset i : Nat} {items : List (Nat × Fields)}
    {item : Nat × Fields} (hbefore : ∀ other ∈ items, other.1 < item.1)
    (hrecord : unpackRecord data strings (tableOffset + i * portRecordSize) =
      some (item.1, (ranking.ranks item.1).getD 0, item.2)) :
    unpackPort data strings tableOffset (unpacked ranking.ranks items) i =
      some (unpacked ranking.ranks (items ++ [item])) := by
  have hnew := lookup_eq_none hbefore
  have hlookup : ∀ port, (items ++ [item]).lookup port =
      if port = item.1 then some item.2 else items.lookup port := by
    intro port
    rw [List.lookup_append]
    split
    · next heq =>
      rw [heq, hnew, Option.none_or, List.lookup_cons, beq_self_eq_true]
    · next hne =>
      rw [List.lookup_cons, beq_eq_false_iff_ne.mpr hne]
      exact Option.or_none
  have hranks : (if (ranking.ranks item.1).getD 0 ≠ 0 then
      Function.update (unpacked ranking.ranks items).ranks item.1
        (some ((ranking.ranks item.1).getD 0))
      else (unpacked ranking.ranks items).ranks) =
      (unpacked ranking.ranks (items ++ [item])).ranks := by
    funext port
    simp only [unpacked, hlookup]
    cases hrank : ranking.ranks item.1 with
    | none =>
      simp only [Option.getD_none, ne_eq, not_true_eq_false, if_false]
      split
      · next heq => rw [heq, hnew, Option.bind_none, Option.bind_some, hrank]
      · rfl
    | some rank =>
      have hpos := (ranking.ranks_eq_some hrank).1
      rw [Option.getD_some, if_pos (by omega), Function.update_apply]
      split
      · next heq => rw [heq, Option.bind_some, hrank]
      · rfl
  have hresult : Function.update (unpacked ranking.ranks items).result item.1 (some item.2) =
      (unpacked ranking.ranks (items ++ [item])).result := by
    funext port
    simp only [unpacked, hlookup, Function.update_apply]
  unfold unpackPort
  rw [hrecord]
  simp only [Option.bind_eq_bind, Option.bind_some, hranks, hresult]
  rfl

/-- The loop over the first `n` records. -/
theorem foldlM_unpackPort {data : Bytes} {tableOffset : Nat}
    (hrecord : ∀ i (hi : i < merged.items.length),
      unpackRecord data strings (tableOffset + i * portRecordSize) =
        some (merged.items[i].1, (ranking.ranks merged.items[i].1).getD 0, merged.items[i].2))
    {n : Nat} (hn : n ≤ merged.items.length) :
    (List.range n).foldlM (unpackPort data strings tableOffset) {} =
      some (unpacked ranking.ranks (merged.items.take n)) := by
  induction n with
  | zero => rfl
  | succ n ih =>
    have hbefore : ∀ other ∈ merged.items.take n, other.1 < merged.items[n].1 := by
      intro other hother
      obtain ⟨j, hj, rfl⟩ := List.getElem_of_mem hother
      rw [List.length_take] at hj
      rw [List.getElem_take]
      exact List.pairwise_iff_getElem.mp merged.ascending j n (by omega) (by omega) (by omega)
    rw [List.range_succ, List.foldlM_append, ih (by omega), ← List.take_append_getElem (by omega)]
    simp only [List.foldlM_cons, List.foldlM_nil, Option.bind_eq_bind, Option.bind_some]
    rw [unpackPort_eq hbefore (hrecord n (by omega))]
    rfl

end Unpack

/-! ## The file -/

section File

variable (merged : Merged) (ranking : Ranking merged)

/-- What `pack` lays out: a header, right records and the pool they point into. -/
structure Layout (bytes : Bytes) (records : List Bytes) (strings : Bytes) : Prop where
  packed : pack merged.items ranking.ranks = some bytes
  bytes_eq : bytes = headerBytes (ascii "NSPT") 1 merged.items.length records.flatten.length
    strings.length ++ (records.flatten ++ strings)
  right : List.Forall₂ (PortRecord ranking.ranks strings) merged.items records
  strings_lt : strings.length < 2 ^ 32

theorem pack_layout : ∃ bytes records strings, Layout merged ranking bytes records strings := by
  have hcount := merged.length_items
  have hempty : ({} : PortPacking).pool.strings.length = 1 := rfl
  have hport : ∀ item ∈ merged.items, item.1 < 2 ^ 16 := by
    intro item hitem
    have := (merged.port_range item hitem).2
    omega
  obtain ⟨p, records, more, hrun, hmore, hlen, htable, hall⟩ :=
    foldlM_packPort sound_emptyPool merged.items hport ranking.ranks_lt
      (by rw [hempty]; omega) (p := {})
  rw [List.nil_append] at htable
  have hpool : p.pool.strings.length < 2 ^ 32 := by
    rw [hmore, List.length_append, hempty]
    omega
  refine ⟨_, records, p.pool.strings, ?_, rfl, hall, hpool⟩
  have hrecords := length_flatten_of_size fun bytes hmem => by
    obtain ⟨j, hj, rfl⟩ := List.getElem_of_mem hmem
    exact (hall.get (by rw [hall.length_eq]; exact hj) hj).length
  rw [← hall.length_eq, portRecordSize] at hrecords
  unfold pack
  simp only [hrun, htable, Option.bind_eq_bind, Option.bind_some]
  rw [packHeader_eq (by decide) (by omega) (by rw [hrecords, headerSize]; omega) hpool,
    Option.bind_some]
  rfl

variable {merged ranking} {bytes strings : Bytes} {records : List Bytes}

theorem Layout.length_records (h : Layout merged ranking bytes records strings) :
    records.flatten.length = merged.items.length * portRecordSize := by
  have hsize : ∀ record ∈ records, record.length = portRecordSize := by
    intro record hmem
    obtain ⟨j, hj, rfl⟩ := List.getElem_of_mem hmem
    exact (h.right.get (by rw [h.right.length_eq]; exact hj) hj).length
  rw [length_flatten_of_size hsize, h.right.length_eq]

theorem Layout.offset_lt (h : Layout merged ranking bytes records strings) :
    headerSize + records.flatten.length < 2 ^ 32 := by
  have := merged.length_items
  rw [h.length_records, headerSize, portRecordSize]
  omega

/-- **The program opens the file.** -/
theorem Layout.opens (h : Layout merged ranking bytes records strings) :
    openPorts bytes = .ok (portDb records strings) := by
  have := merged.length_items
  have hlayout := open_layout (show (ascii "NSPT").length = 4 by decide)
    (show 1 < 2 ^ 32 by decide) (by omega : merged.items.length < 2 ^ 32) h.length_records
    h.offset_lt h.strings_lt
  unfold openPorts
  rw [h.bytes_eq, hlayout, h.right.length_eq]
  rfl

/-- **The generator reads its file back.** -/
theorem Layout.unpacks (h : Layout merged ranking bytes records strings) (hshort : merged.Short) :
    unpack bytes = some (some (unpacked ranking.ranks merged.items)) := by
  have hmagic : (ascii "NSPT").length = 4 := by decide
  have hitems := merged.length_items
  have hlen := length_headerBytes hmagic 1 merged.items.length records.flatten.length strings.length
  have hhead := readHeader_headerBytes hmagic (by decide : 1 < 2 ^ 32)
    (by omega : merged.items.length < 2 ^ 32) h.offset_lt h.strings_lt (records.flatten ++ strings)
  rw [← h.bytes_eq] at hhead
  have hrecords := h.length_records
  have hbytes := h.bytes_eq
  generalize headerBytes (ascii "NSPT") 1 merged.items.length records.flatten.length
    strings.length = header at hlen hbytes
  have htotal : bytes.length = headerSize + records.flatten.length + strings.length := by
    rw [hbytes, List.length_append, List.length_append, hlen]
    omega
  have hpool : slice bytes (headerSize + records.flatten.length)
      (headerSize + records.flatten.length + strings.length) = strings := by
    have := slice_append_middle (header ++ records.flatten) strings []
    rwa [List.append_nil, List.append_assoc, List.length_append, hlen, ← hbytes] at this
  have hread : ∀ i (hi : i < merged.items.length),
      unpackRecord bytes strings (headerSize + i * portRecordSize) =
        some (merged.items[i].1, (ranking.ranks merged.items[i].1).getD 0,
          merged.items[i].2) := by
    intro i hi
    obtain ⟨hrecord, hright⟩ := portRecord_getElem h.right hi
    have hend : i * portRecordSize + portRecordSize ≤ records.flatten.length := by
      rw [hrecords, ← Nat.succ_mul]
      exact Nat.mul_le_mul_right _ hi
    have hslice : slice bytes (headerSize + i * portRecordSize)
        (headerSize + i * portRecordSize + portRecordSize) =
          (portDb records strings).record i := by
      rw [hbytes, ← hlen, Nat.add_assoc, slice_append_right, slice_append_left _ _ hend]
      rfl
    have hmem := List.getElem_mem hi
    have hport := (merged.port_range _ hmem).2
    refine unpackRecord_eq ?_ (by omega) (by omega) (ranking.ranks_lt _) (hshort _ hmem)
    rw [hslice, hrecord]
    exact hright
  have hloop := foldlM_unpackPort hread (Nat.le_refl _)
  rw [List.take_length] at hloop
  unfold unpack
  simp only [hhead, hpool, hloop]
  rw [if_neg (by omega), if_neg (by simp)]
  rfl

/-- The ranks come back with the table: a ranked port is in it. -/
theorem unpacked_ranks : (unpacked ranking.ranks merged.items).ranks = ranking.ranks := by
  funext port
  show ((merged.items.lookup port).bind fun _ => ranking.ranks port) = ranking.ranks port
  by_cases hport : port ∈ merged.ports
  · cases hlookup : merged.items.lookup port with
    | none =>
      rw [List.lookup_eq_none_iff] at hlookup
      obtain ⟨item, hitem, rfl⟩ := List.mem_map.mp hport
      simpa using hlookup item hitem
    | some fields => rfl
  · rw [ranking.ranks_of_not_mem hport]
    exact Option.bind_fun_none _

/-- The pool offset of a field of entry `index`. -/
def fieldOffset (db : Table) (index field : Nat) : Nat :=
  readU32 (db.record index) (4 + 4 * field)

/-- **Two fields of the table share an offset only for one text.** -/
theorem Layout.shares (h : Layout merged ranking bytes records strings) {i j k l : Nat}
    {a b : List Char} (hi : i < merged.items.length) (hj : j < merged.items.length)
    (ha : merged.items[i].2.toList[k]? = some a) (hb : merged.items[j].2.toList[l]? = some b)
    (heq : fieldOffset (portDb records strings) i k = fieldOffset (portDb records strings) j l) :
    fit 255 a = fit 255 b := by
  obtain ⟨hrecordi, hrighti⟩ := portRecord_getElem h.right hi
  obtain ⟨hrecordj, hrightj⟩ := portRecord_getElem h.right hj
  have hata := hrighti.readField ha
  have hatb := hrightj.readField hb
  rw [fieldOffset, fieldOffset, hrecordi, hrecordj] at heq
  rw [heq] at hata
  exact hata.unique hatb

/-- **The port table survives packing**: the program opens the file, finds every port of the
table with its texts and its rank and no other, and the generator reads the same table and ranks
back when no text was cut. -/
theorem portTable_survives (merged : Merged) (ranking : Ranking merged) :
    ∃ bytes db, pack merged.items ranking.ranks = some bytes ∧ openPorts bytes = .ok db ∧
      (∀ item ∈ merged.items, lookup db item.1 = some (serviceOf item.2)) ∧
      (∀ port, port ∉ merged.ports → lookup db port = none) ∧
      (∀ port, rank db port = (ranking.ranks port).getD 0) ∧
      (merged.Short → ∃ u, unpack bytes = some (some u) ∧
        u.result = (fun port => merged.items.lookup port) ∧ u.ranks = ranking.ranks) ∧
      ∀ i (hi : i < merged.items.length) j (hj : j < merged.items.length) k l a b,
        merged.items[i].2.toList[k]? = some a → merged.items[j].2.toList[l]? = some b →
        fieldOffset db i k = fieldOffset db j l → fit 255 a = fit 255 b := by
  obtain ⟨bytes, records, strings, h⟩ := pack_layout merged ranking
  refine ⟨bytes, portDb records strings, h.packed, h.opens, ?_, ?_, ?_, ?_, ?_⟩
  · exact fun item hitem => lookup_portDb h.right hitem
  · exact fun port hport => lookup_portDb_none h.right hport
  · exact rank_portDb h.right
  · intro hshort
    exact ⟨_, h.unpacks hshort, rfl, unpacked_ranks⟩
  · intro i hi j hj k l a b ha hb heq
    exact h.shares hi hj ha hb heq

end File

/-! ## The ranked ports of the file -/

section ByRank

variable {merged : Merged} (ranking : Ranking merged)

/-- The entries of the file, as a scan reads them. -/
def Ranking.entries : List PortEntry :=
  merged.items.map fun item => { port := item.1, rank := (ranking.ranks item.1).getD 0 }

/-- The ports of `order` that `ports` has, each in its slot. -/
def slots (order ports : List Nat) : List Nat :=
  order.map fun port => if port ∈ ports then port else 0

theorem Ranking.getElem_order {port rank : Nat} (h : ranking.ranks port = some rank) :
    ∃ hlt : rank - 1 < ranking.order.length, ranking.order[rank - 1] = port :=
  List.getElem?_eq_some_iff.mp (ranking.ranks_eq_some h).2

/-- One turn of the loop that fills `by_rank`. -/
theorem Ranking.placeRanked_eq {ports : List Nat} {port : Nat} (hnew : port ∉ ports) :
    placeRanked ranking.order.length (slots ranking.order ports)
        { port, rank := (ranking.ranks port).getD 0 } =
      some (slots ranking.order (ports ++ [port])) := by
  have hmem : ∀ other, (other ∈ ports ++ [port]) ↔ (other ∈ ports ∨ other = port) := by simp
  unfold placeRanked
  cases hrank : ranking.ranks port with
  | none =>
    -- a port without a rank fills no slot
    rw [Option.getD_none, if_pos rfl, Option.some.injEq]
    refine List.map_congr_left fun other hother => ?_
    have hne : other ≠ port := by
      rintro rfl
      have := lookup_zipIdx_isSome 1 hother
      rw [show (ranking.order.zipIdx 1).lookup other = none from hrank] at this
      simp at this
    simp [hne]
  | some rank =>
    obtain ⟨hpos, -⟩ := ranking.ranks_eq_some hrank
    obtain ⟨hlt, hget⟩ := ranking.getElem_order hrank
    have hslot : (slots ranking.order ports)[rank - 1]? = some 0 := by
      rw [slots, List.getElem?_map, List.getElem?_eq_getElem hlt, hget, Option.map_some,
        if_neg hnew]
    simp only [Option.getD_some]
    rw [if_neg (by omega)]
    have hfree : ¬(ranking.order.length < rank ∨
        (slots ranking.order ports)[rank - 1]? ≠ some 0) := by
      rintro (hpast | htaken)
      · omega
      · exact htaken hslot
    rw [if_neg hfree, Option.some.injEq]
    refine List.ext_getElem (by simp [slots]) fun i hi hi' => ?_
    simp only [slots, List.length_set, List.length_map] at hi
    rw [List.getElem_set]
    simp only [slots, List.getElem_map, hmem]
    split
    · next heq =>
      subst heq
      rw [hget, if_pos (Or.inr rfl)]
    · next hne =>
      have hother : ranking.order[i] ≠ port := by
        intro heq
        rw [← hget] at heq
        exact hne ((List.Nodup.getElem_inj_iff ranking.nodup).mp heq).symm
      simp [hother]

theorem Ranking.foldlM_placeRanked {ports rest : List Nat} (hnodup : (ports ++ rest).Nodup) :
    (rest.map fun port => PortEntry.mk port ((ranking.ranks port).getD 0)).foldlM
        (placeRanked ranking.order.length) (slots ranking.order ports) =
      some (slots ranking.order (ports ++ rest)) := by
  induction rest generalizing ports with
  | nil => rw [List.append_nil]; rfl
  | cons port rest ih =>
    have hnew : port ∉ ports := by
      intro hmem
      exact List.disjoint_of_nodup_append hnodup hmem List.mem_cons_self
    rw [List.append_cons] at hnodup ⊢
    rw [List.map_cons, List.foldlM_cons, ranking.placeRanked_eq hnew]
    exact ih hnodup

theorem Merged.nodup_ports (merged : Merged) : merged.ports.Nodup := by
  rw [Merged.ports, List.Nodup, List.pairwise_map]
  exact merged.ascending.imp Nat.ne_of_lt

theorem Ranking.mem_order_iff (port : Nat) :
    port ∈ ranking.order ↔ (ranking.ranks port).getD 0 ≠ 0 := by
  constructor
  · intro hmem
    obtain ⟨rank, hrank⟩ := Option.isSome_iff_exists.mp (lookup_zipIdx_isSome 1 hmem)
    have := (ranking.ranks_eq_some hrank).1
    rw [show ranking.ranks port = some rank from hrank, Option.getD_some]
    omega
  · intro hne
    cases hrank : ranking.ranks port with
    | none =>
      rw [hrank] at hne
      exact absurd rfl hne
    | some rank => exact ranking.mem_of_ranks hrank

/-- As many entries have a rank as there are ranks. -/
theorem Ranking.length_rankedEntries :
    (rankedEntries ranking.entries).length = ranking.order.length := by
  have hports : (rankedEntries ranking.entries).map PortEntry.port =
      merged.ports.filter fun port => (ranking.ranks port).getD 0 ≠ 0 := by
    simp only [rankedEntries, entries, Merged.ports, List.filter_map, List.map_map]
    rfl
  have hperm : ((rankedEntries ranking.entries).map PortEntry.port).Perm ranking.order := by
    rw [hports, List.perm_ext_iff_of_nodup (merged.nodup_ports.filter _) ranking.nodup]
    intro port
    rw [List.mem_filter, ranking.mem_order_iff]
    constructor
    · rintro ⟨-, hrank⟩
      simpa using hrank
    · intro hrank
      exact ⟨ranking.known port ((ranking.mem_order_iff port).mpr hrank), by simpa using hrank⟩
  rw [← hperm.length_eq, List.length_map]

/-- **`by_rank` builds, and lists the ports in the order of the ranking.** -/
theorem Ranking.byRank?_entries : byRank? ranking.entries = some ranking.order := by
  have hempty : List.replicate ranking.order.length 0 = slots ranking.order [] := by
    simp [slots, List.map_const']
  have hfull : slots ranking.order merged.ports = ranking.order := by
    rw [slots]
    refine (List.map_congr_left fun port hport => ?_).trans (List.map_id _)
    rw [if_pos (ranking.known port hport), id]
  have hentries : ranking.entries =
      merged.ports.map fun port => PortEntry.mk port ((ranking.ranks port).getD 0) := by
    rw [entries, Merged.ports, List.map_map]
    rfl
  unfold byRank?
  simp only [ranking.length_rankedEntries]
  rw [hempty, hentries]
  have hnodup : ([] ++ merged.ports).Nodup := merged.nodup_ports
  have hrun := ranking.foldlM_placeRanked hnodup
  rwa [List.nil_append, hfull] at hrun

/-- The port table a scan reads, from the packed file. -/
def Ranking.portTable : PortTable where
  entries := ranking.entries
  byRank := ranking.order
  ascending := List.pairwise_map.mpr merged.ascending
  port_pos := by
    intro entry hentry
    obtain ⟨item, hitem, rfl⟩ := List.mem_map.mp hentry
    exact (merged.port_range item hitem).1
  built := ranking.byRank?_entries

/-- **The file holds that table**: entry by entry. -/
theorem Layout.portTable {bytes strings : Bytes} {records : List Bytes}
    (h : Layout merged ranking bytes records strings) :
    (List.range (portDb records strings).entryCount).map (fun i =>
        PortEntry.mk (portAt (portDb records strings) i) (rankAt (portDb records strings) i)) =
      ranking.portTable.entries := by
  have hcount : (portDb records strings).entryCount = merged.items.length :=
    h.right.length_eq.symm
  refine List.ext_getElem ?_ fun i hi hi' => ?_
  · simp [hcount, Ranking.portTable, Ranking.entries]
  · have hlt : i < merged.items.length := by simpa [hcount] using hi
    simp only [List.getElem_map, List.getElem_range, Ranking.portTable, Ranking.entries]
    rw [portAt_portDb h.right hlt, rankAt_portDb h.right hlt]

end ByRank

end NetScanner.Ports
