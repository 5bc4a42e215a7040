import NetScanner.Tables.PortNames
import NetScanner.Infra.Sort

/-!
# Right records

The loop of `pack`, and what a record of it says to its readers.

A record is right for a port when it has the port, its rank and four offsets, and the pool has
the four texts there behind their lengths (`PortRecord`). As the pool only grows at its end, a
record that is right stays right.
-/

namespace NetScanner.Ports

open Infra PackedDb

/-! ## The table and its ranking -/

/-- What `merge` returns: known ports in ascending order, each with a label or an IANA name. -/
structure Merged where
  items : List (Nat × Fields)
  ascending : items.Pairwise fun a b => a.1 < b.1
  port_range : ∀ item ∈ items, 1 ≤ item.1 ∧ item.1 ≤ 65535
  named : ∀ item ∈ items, item.2.label ≠ [] ∨ item.2.iana ≠ []

def Merged.ports (merged : Merged) : List Nat := merged.items.map (·.1)

/-- Some ports of the table, the most often open first. -/
structure Ranking (merged : Merged) where
  order : List Nat
  nodup : order.Nodup
  known : ∀ port ∈ order, port ∈ merged.ports

/-- `{port: rank for rank, port in enumerate(named, 1)}`. -/
def Ranking.ranks {merged : Merged} (ranking : Ranking merged) (port : Nat) : Option Nat :=
  (ranking.order.zipIdx 1).lookup port

/-- A text of the table as a lookup gives it: cut to 255 bytes at a character, none for an
empty one. -/
def shown (text : List Char) : Option Bytes :=
  if text = [] then none else some (utf8 (fit 255 text))

/-- What a lookup is to say of a port. -/
def serviceOf (fields : Fields) : Service where
  name := utf8 (fit 255 (if fields.label ≠ [] then fields.label else fields.iana))
  iana := shown fields.iana
  description := shown fields.description
  category := shown fields.category

theorem lookup_zipIdx {order : List Nat} {start port rank : Nat}
    (h : (order.zipIdx start).lookup port = some rank) :
    start ≤ rank ∧ order[rank - start]? = some port := by
  induction order generalizing start with
  | nil => simp at h
  | cons first rest ih =>
    rw [List.zipIdx_cons, List.lookup_cons] at h
    split at h
    · next heq =>
      rw [beq_iff_eq] at heq
      cases h
      rw [heq, Nat.sub_self]
      exact ⟨Nat.le_refl _, rfl⟩
    · obtain ⟨hle, hget⟩ := ih h
      refine ⟨by omega, ?_⟩
      rw [show rank - start = rank - (start + 1) + 1 by omega, List.getElem?_cons_succ]
      exact hget

theorem lookup_zipIdx_isSome {order : List Nat} {port : Nat} (start : Nat) (h : port ∈ order) :
    ((order.zipIdx start).lookup port).isSome := by
  induction order generalizing start with
  | nil => simp at h
  | cons first rest ih =>
    rw [List.zipIdx_cons, List.lookup_cons]
    split
    · rfl
    · next hne =>
      rw [beq_eq_false_iff_ne] at hne
      rcases List.mem_cons.mp h with rfl | hrest
      · exact absurd rfl hne
      · exact ih (start + 1) hrest

theorem Merged.length_items (merged : Merged) : merged.items.length ≤ 65535 := by
  have hasc : merged.items.Pairwise fun a b => a.1 - 1 < b.1 - 1 := by
    refine merged.ascending.imp_of_mem fun ha _ hlt => ?_
    have := (merged.port_range _ ha).1
    omega
  refine length_le_of_ascending hasc fun item hitem => ?_
  have := merged.port_range item hitem
  omega

section Ranks

variable {merged : Merged} (ranking : Ranking merged)

theorem Ranking.ranks_eq_some {port rank : Nat} (h : ranking.ranks port = some rank) :
    1 ≤ rank ∧ ranking.order[rank - 1]? = some port :=
  lookup_zipIdx h

theorem Ranking.mem_of_ranks {port rank : Nat} (h : ranking.ranks port = some rank) :
    port ∈ ranking.order :=
  List.mem_of_getElem? (ranking.ranks_eq_some h).2

/-- No more ranks than ports. -/
theorem Ranking.length_order : ranking.order.length < 2 ^ 16 := by
  have hle := (List.subperm_of_subset ranking.nodup ranking.known).length_le
  rw [Merged.ports, List.length_map] at hle
  have := merged.length_items
  omega

theorem Ranking.ranks_lt (port : Nat) : (ranking.ranks port).getD 0 < 2 ^ 16 := by
  cases h : ranking.ranks port with
  | none => decide
  | some rank =>
    obtain ⟨hle, hget⟩ := ranking.ranks_eq_some h
    obtain ⟨hlt, -⟩ := List.getElem?_eq_some_iff.mp hget
    have := ranking.length_order
    rw [Option.getD_some]
    omega

end Ranks

/-! ## The encoder -/

theorem encode_eq (text : List Char) : encode text = utf8 (fit 255 text) := by
  unfold encode
  simp only []
  split
  · rw [decodeIgnore_take_utf8]
  · next h => rw [fit_of_le (by omega)]

theorem length_encode (text : List Char) : (encode text).length ≤ 255 := by
  rw [encode_eq]
  exact length_utf8_fit 255 text

theorem encode_eq_nil_iff {text : List Char} : encode text = [] ↔ text = [] := by
  rw [encode_eq, utf8_eq_nil_iff]
  constructor
  · intro h
    by_contra hne
    exact fit_ne_nil (by decide) hne h
  · rintro rfl
    rfl

/-- The pool has the text at the offset. -/
structure TextAt (strings : Bytes) (text : List Char) (offset : Nat) : Prop where
  lt : offset < 2 ^ 32
  holds : Holds strings offset (lengthPrefixed (encode text))

theorem TextAt.append {strings : Bytes} {text : List Char} {offset : Nat}
    (h : TextAt strings text offset) (more : Bytes) : TextAt (strings ++ more) text offset :=
  ⟨h.lt, h.holds.append more⟩

theorem sound_emptyPool : emptyPool.Sound lengthPrefixed := by
  intro name offset h
  simp only [emptyPool, List.lookup_cons, List.lookup_nil] at h
  split at h
  · next heq =>
    rw [beq_iff_eq] at heq
    cases h
    rw [heq]
    exact ⟨Nat.le_refl _, rfl⟩
  · cases h

/-- **What interning the texts of a port does.** -/
theorem internAll_spec {pool : Pool} (hsound : pool.Sound lengthPrefixed) (texts : List (List Char))
    (hsize : pool.strings.length + 256 * texts.length < 2 ^ 32) :
    (internAll pool texts).1.Sound lengthPrefixed ∧
      (∃ more, (internAll pool texts).1.strings = pool.strings ++ more ∧
        more.length ≤ 256 * texts.length) ∧
      List.Forall₂ (TextAt (internAll pool texts).1.strings) texts (internAll pool texts).2 := by
  induction texts generalizing pool with
  | nil => exact ⟨hsound, ⟨[], (List.append_nil _).symm, Nat.zero_le _⟩, .nil⟩
  | cons text rest ih =>
    obtain ⟨hsound₁, hholds, more, hmore, hlen⟩ :=
      Pool.intern_spec lengthPrefixed hsound (encode text)
    rw [lengthPrefixed, List.length_cons] at hlen
    have hcut := length_encode text
    rw [List.length_cons, Nat.mul_add_one] at hsize
    have hlen₁ : (pool.intern lengthPrefixed (encode text)).1.strings.length ≤
        pool.strings.length + 256 := by
      rw [hmore, List.length_append]
      omega
    obtain ⟨hsound₂, ⟨more', hmore', hlen'⟩, hall⟩ := ih hsound₁ (by omega)
    refine ⟨hsound₂, ⟨more ++ more', ?_, ?_⟩, .cons ?_ hall⟩
    · rw [internAll, hmore', hmore, List.append_assoc]
    · rw [List.length_append, List.length_cons, Nat.mul_add_one]
      omega
    · have hfits := hholds.fits
      have htext : TextAt (pool.intern lengthPrefixed (encode text)).1.strings text
          (pool.intern lengthPrefixed (encode text)).2 := ⟨by omega, hholds⟩
      have hlast := htext.append more'
      rwa [← hmore'] at hlast

theorem Fields.length_toList (fields : Fields) : fields.toList.length = 4 := rfl

/-- The record of a port, with its texts in the pool. -/
def PortRecord (ranks : Nat → Option Nat) (strings : Bytes) (item : Nat × Fields) (bytes : Bytes) :
    Prop :=
  ∃ offsets, bytes = leBytes 2 item.1 ++ (leBytes 2 ((ranks item.1).getD 0) ++
      (offsets.map (leBytes 4)).flatten) ∧
    List.Forall₂ (TextAt strings) item.2.toList offsets

theorem PortRecord.append {ranks : Nat → Option Nat} {strings bytes : Bytes} {item : Nat × Fields}
    (h : PortRecord ranks strings item bytes) (more : Bytes) :
    PortRecord ranks (strings ++ more) item bytes := by
  obtain ⟨offsets, hbytes, hall⟩ := h
  exact ⟨offsets, hbytes, hall.imp fun _ _ htext => htext.append more⟩

theorem mapM_packU32 {offsets : List Nat} (h : ∀ offset ∈ offsets, offset < 2 ^ 32) :
    offsets.mapM packU32 = some (offsets.map (leBytes 4)) := by
  induction offsets with
  | nil => rfl
  | cons offset rest ih =>
    rw [List.mapM_cons, ih fun o ho => h o (List.mem_cons_of_mem _ ho), packU32,
      if_pos (h offset List.mem_cons_self)]
    rfl

theorem recordBytes_eq {port rank : Nat} {offsets : List Nat} (hport : port < 2 ^ 16)
    (hrank : rank < 2 ^ 16) (h : ∀ offset ∈ offsets, offset < 2 ^ 32) :
    recordBytes port rank offsets =
      some (leBytes 2 port ++ (leBytes 2 rank ++ (offsets.map (leBytes 4)).flatten)) := by
  unfold recordBytes
  rw [mapM_packU32 h, packU16, packU16, if_pos hport, if_pos hrank]
  rfl

theorem lt_of_textAt {strings : Bytes} {texts : List (List Char)} {offsets : List Nat}
    (h : List.Forall₂ (TextAt strings) texts offsets) : ∀ offset ∈ offsets, offset < 2 ^ 32 := by
  induction h with
  | nil => simp
  | cons htext _ ih =>
    intro offset hmem
    rcases List.mem_cons.mp hmem with rfl | hrest
    · exact htext.lt
    · exact ih offset hrest

section Loop

variable {ranks : Nat → Option Nat}

/-- One turn of the packer's loop. -/
theorem packPort_spec {p : PortPacking} (hsound : p.pool.Sound lengthPrefixed)
    {item : Nat × Fields} (hport : item.1 < 2 ^ 16) (hrank : (ranks item.1).getD 0 < 2 ^ 16)
    (hsize : p.pool.strings.length + 1024 < 2 ^ 32) :
    ∃ p' bytes more, packPort ranks p item = some p' ∧ p'.pool.Sound lengthPrefixed ∧
      p'.pool.strings = p.pool.strings ++ more ∧ more.length ≤ 1024 ∧
      p'.table = p.table ++ bytes ∧ PortRecord ranks p'.pool.strings item bytes := by
  have htexts : p.pool.strings.length + 256 * item.2.toList.length < 2 ^ 32 := by
    rw [Fields.length_toList]
    omega
  obtain ⟨hsound', ⟨more, hmore, hlen⟩, hall⟩ := internAll_spec hsound item.2.toList htexts
  rw [Fields.length_toList] at hlen
  refine ⟨{ pool := (internAll p.pool item.2.toList).1, table := _ }, _, more, ?_, hsound', hmore,
    hlen, rfl, _, rfl, hall⟩
  unfold packPort
  simp only [recordBytes_eq hport hrank (lt_of_textAt hall)]
  rfl

/-- **The whole loop**: one record for each port, each with its texts in the final pool. -/
theorem foldlM_packPort {p : PortPacking} (hsound : p.pool.Sound lengthPrefixed)
    (items : List (Nat × Fields)) (hport : ∀ item ∈ items, item.1 < 2 ^ 16)
    (hrank : ∀ port, (ranks port).getD 0 < 2 ^ 16)
    (hsize : p.pool.strings.length + 1024 * items.length < 2 ^ 32) :
    ∃ p' records more, items.foldlM (packPort ranks) p = some p' ∧
      p'.pool.strings = p.pool.strings ++ more ∧ more.length ≤ 1024 * items.length ∧
      p'.table = p.table ++ records.flatten ∧
      List.Forall₂ (PortRecord ranks p'.pool.strings) items records :=
  Pool.foldlM_records PortPacking.pool PortPacking.table (fun _ _ _ more h => h.append more)
    (fun _ item hs hitem hsize => packPort_spec hs hitem (hrank item.1) hsize) items hsound
    hport hsize

end Loop

/-! ## Reading a record -/

section Read

variable {ranks : Nat → Option Nat} {strings bytes : Bytes} {item : Nat × Fields}

theorem PortRecord.length (h : PortRecord ranks strings item bytes) :
    bytes.length = portRecordSize := by
  obtain ⟨offsets, rfl, hall⟩ := h
  have hfour := hall.length_eq
  rw [Fields.length_toList] at hfour
  have hsize : ∀ field ∈ offsets.map (leBytes 4), field.length = 4 := by
    intro field hfield
    obtain ⟨offset, -, rfl⟩ := List.mem_map.mp hfield
    exact length_leBytes 4 offset
  simp [length_flatten_of_size hsize, ← hfour, portRecordSize]

theorem readU16_append {a : Bytes} (rest : Bytes) {n start : Nat} (hstart : a.length = start)
    (hn : n < 2 ^ 16) : readU16 (a ++ (leBytes 2 n ++ rest)) start = n := by
  have h := slice_append_middle a (leBytes 2 n) rest
  rw [length_leBytes] at h
  rw [readU16, ← hstart, h]
  exact leNat_leBytes (by simpa using hn)

theorem PortRecord.readPort (h : PortRecord ranks strings item bytes) (hport : item.1 < 2 ^ 16) :
    readU16 bytes 0 = item.1 := by
  obtain ⟨offsets, rfl, -⟩ := h
  exact readU16_append (a := []) _ rfl hport

theorem PortRecord.readRank (h : PortRecord ranks strings item bytes)
    (hrank : (ranks item.1).getD 0 < 2 ^ 16) : readU16 bytes 2 = (ranks item.1).getD 0 := by
  obtain ⟨offsets, rfl, -⟩ := h
  exact readU16_append _ (length_leBytes 2 _) hrank

/-- **Each field of a record points at its text.** -/
theorem PortRecord.readField (h : PortRecord ranks strings item bytes) {k : Nat} {text : List Char}
    (hk : item.2.toList[k]? = some text) : TextAt strings text (readU32 bytes (4 + 4 * k)) := by
  obtain ⟨offsets, rfl, hall⟩ := h
  obtain ⟨hlt, rfl⟩ := List.getElem?_eq_some_iff.mp hk
  have hlt' : k < offsets.length := by
    rw [← hall.length_eq]
    exact hlt
  have htext : TextAt strings item.2.toList[k] offsets[k] := hall.get hlt hlt'
  have hsize : ∀ field ∈ offsets.map (leBytes 4), field.length = 4 := by
    intro field hfield
    obtain ⟨offset, -, rfl⟩ := List.mem_map.mp hfield
    exact length_leBytes 4 offset
  have hfield := slice_flatten hsize (i := k) (by rw [List.length_map]; exact hlt')
  have hread : readU32 (leBytes 2 item.1 ++ (leBytes 2 ((ranks item.1).getD 0) ++
      (offsets.map (leBytes 4)).flatten)) (4 + 4 * k) = offsets[k] := by
    have hstart : (leBytes 2 item.1 ++ leBytes 2 ((ranks item.1).getD 0)).length = 4 := by simp
    have hright := slice_append_right (leBytes 2 item.1 ++ leBytes 2 ((ranks item.1).getD 0))
      (offsets.map (leBytes 4)).flatten (k * 4) (k * 4 + 4)
    rw [hstart, hfield, List.getElem_map, List.append_assoc] at hright
    rw [readU32, Nat.mul_comm 4 k, Nat.add_assoc, hright]
    exact leNat_leBytes htext.lt
  rw [hread]
  exact htext

/-- A text of the pool, as the program reads it. -/
theorem poolString_eq {db : Table} {record : Bytes} {start : Nat} {text : List Char}
    (h : TextAt db.strings text (readU32 record start)) :
    poolString db (slice record start (start + 4)) = shown text := by
  have hlen := length_encode text
  obtain ⟨hbyte, hholds⟩ := h.holds.cons
  have hoffset : readU32 (slice record start (start + 4)) 0 = readU32 record start := by
    rw [readU32, slice_slice _ _ (Nat.le_refl 4)]
    rfl
  have hbyteLen : (UInt8.ofNat (encode text).length).toNat = (encode text).length := by
    rw [UInt8.toNat_ofNat']
    omega
  unfold poolString shown
  simp only [hoffset, hbyte, hbyteLen]
  have hfits := hholds.fits
  by_cases hempty : text = []
  · have hnil := encode_eq_nil_iff.mpr hempty
    rw [if_pos hempty, if_pos (Or.inl (by rw [hnil]; rfl))]
  · have hpos : (encode text).length ≠ 0 := by
      intro hzero
      exact hempty (encode_eq_nil_iff.mp (List.eq_nil_of_length_eq_zero hzero))
    rw [if_neg hempty, if_neg (by omega), hholds.stands, encode_eq]

/-- The same text, as the generator reads it back. -/
theorem poolText_eq {offset : Nat} {text : List Char} (h : TextAt strings text offset) :
    poolText strings offset = some (fit 255 text) := by
  have hlen := length_encode text
  obtain ⟨hbyte, hholds⟩ := h.holds.cons
  have hbyteLen : (UInt8.ofNat (encode text).length).toNat = (encode text).length := by
    rw [UInt8.toNat_ofNat']
    omega
  have hread : poolText strings offset = decode? (slice strings (offset + 1)
      (offset + 1 + (UInt8.ofNat (encode text).length).toNat)) := by
    rw [poolText, hbyte]
    rfl
  rw [hread, hbyteLen, hholds.stands, encode_eq, decode?_utf8]

/-- **Two texts at one offset are the same text**, as far as the pool has them. -/
theorem TextAt.unique {offset : Nat} {text text' : List Char} (h : TextAt strings text offset)
    (h' : TextAt strings text' offset) : fit 255 text = fit 255 text' := by
  have hread := poolText_eq h
  rw [poolText_eq h', Option.some.injEq] at hread
  exact hread.symm

/-- **A record gives the service of its port.** -/
theorem PortRecord.decode {db : Table} (h : PortRecord ranks db.strings item bytes)
    (hnamed : item.2.label ≠ [] ∨ item.2.iana ≠ []) :
    Ports.decode db bytes = some (serviceOf item.2) := by
  have hlabel := poolString_eq (h.readField (k := 0) rfl)
  have hiana := poolString_eq (h.readField (k := 1) rfl)
  have hdescription := poolString_eq (h.readField (k := 2) rfl)
  have hcategory := poolString_eq (h.readField (k := 3) rfl)
  unfold Ports.decode
  simp only [Nat.reduceMul, Nat.reduceAdd] at hlabel hiana hdescription hcategory
  simp only [hlabel, hiana, hdescription, hcategory]
  by_cases hempty : item.2.label = []
  · have hne : item.2.iana ≠ [] := hnamed.resolve_left (not_not_intro hempty)
    simp [serviceOf, shown, hempty, hne]
  · simp [serviceOf, shown, hempty]

end Read

end NetScanner.Ports
