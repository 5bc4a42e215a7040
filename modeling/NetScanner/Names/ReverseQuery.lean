import NetScanner.Names.HostName

/-!
# The reverse query and its answer

`reverseQuery` of `src/core/multicast.zig` asks an mDNS responder for the name of an address. It
writes the octets of the address into a buffer of 64 bytes, last octet first, each as a label.

`hostName` reads the answer with text of its own: it writes the name it expects with dots, and
compares it with the decoded owner of the record. `reverseQuery_answered` says that the two
agree: an answer to the query gives the name that was sent back, and to no other address.
-/

namespace NetScanner.Names

open Infra Net

/-! ## The query -/

/-- `[64]u8` -/
abbrev QueryBuffer := { bytes : Bytes // bytes.length = 64 }

/-- Copy bytes to `buf[pos..]`; none when they run off the end of the buffer. -/
def QueryBuffer.write (buf : QueryBuffer) (pos : Nat) (bytes : Bytes) : Option QueryBuffer :=
  if h : pos + bytes.length ≤ 64 then
    some ⟨buf.1.take pos ++ (bytes ++ buf.1.drop (pos + bytes.length)), by
      have hlen := buf.2
      simp only [List.length_append, List.length_take, List.length_drop]
      omega⟩
  else none

/-- ID, flags, and the four counts: one question. -/
def queryHeader : Bytes := [0x4E, 0x54, 0, 0, 0, 1, 0, 0, 0, 0, 0, 0]

/-- `in-addr`, `arpa`, the root, type PTR and class IN. -/
def queryTail : Bytes :=
  7 :: (ascii "in-addr" ++ 4 :: (ascii "arpa" ++ [0, 0, UInt8.ofNat dnsTypePtr, 0, 1]))

/-- The loop over the octets `ip[i - 1]` down to `ip[0]`. -/
def writeOctets (ip : Ip) : Nat → Nat → QueryBuffer → Option (Nat × QueryBuffer)
  | 0, len, buf => some (len, buf)
  | i + 1, len, buf => do
    let digits := decimal (byteAt (ipBytes ip) i)
    let buf ← buf.write (len + 1) digits
    let buf ← buf.write len [UInt8.ofNat digits.length]
    writeOctets ip i (len + 1 + digits.length) buf

/-- The unicast mDNS name query for an address; none when it does not fit the buffer. -/
def reverseQuery (buf : QueryBuffer) (ip : Ip) : Option Bytes := do
  let buf ← buf.write 0 queryHeader
  let (len, buf) ← writeOctets ip 4 queryHeader.length buf
  let buf ← buf.write len queryTail
  some (buf.1.take (len + queryTail.length))

/-! ## Names on the wire -/

/-- A label and its length. -/
def encodeLabel (label : Bytes) : Bytes := UInt8.ofNat label.length :: label

/-- A name, without compression. -/
def encodeName (labels : List Bytes) : Bytes := labels.flatMap encodeLabel ++ [0]

/-- Labels of the length DNS has. -/
def DnsLabels (labels : List Bytes) : Prop :=
  ∀ label ∈ labels, 1 ≤ label.length ∧ label.length ≤ 63

/-- The labels of `d.c.b.a.in-addr.arpa`. -/
def reverseLabels (ip : Ip) : List Bytes :=
  let (a, b, c, d) := ip
  [decimal d, decimal c, decimal b, decimal a, ascii "in-addr", ascii "arpa"]

/-- A query, without its buffer: it asks for the type PTR of the reversed name. -/
def queryOf (ip : Ip) : Bytes := queryHeader ++ (encodeName (reverseLabels ip) ++ [0, 12, 0, 1])

theorem encodeName_cons (label : Bytes) (labels : List Bytes) :
    encodeName (label :: labels) = encodeLabel label ++ encodeName labels := by
  rw [encodeName, List.flatMap_cons, List.append_assoc]
  rfl

/-- **A name that was encoded is in place.** -/
theorem inPlace_encodeName {labels : List Bytes} (h : DnsLabels labels) (before after : Bytes) :
    InPlace (before ++ (encodeName labels ++ after)) before.length labels none
      (before.length + (encodeName labels).length) := by
  induction labels generalizing before with
  | nil =>
    refine InPlace.root ?_
    rw [List.getElem?_append_right (Nat.le_refl _), Nat.sub_self]
    rfl
  | cons label labels ih =>
    obtain ⟨hpos, hle⟩ := h label List.mem_cons_self
    have hn : (UInt8.ofNat label.length).toNat = label.length := by
      rw [UInt8.toNat_ofNat']
      omega
    have hpacket : before ++ (encodeName (label :: labels) ++ after) =
        before ++ encodeLabel label ++ (encodeName labels ++ after) := by
      simp only [encodeName_cons, List.append_assoc]
    have hmore := ih (fun l hl => h l (List.mem_cons_of_mem _ hl)) (before ++ encodeLabel label)
    have hnext : (before ++ encodeLabel label).length =
        before.length + 1 + (UInt8.ofNat label.length).toNat := by
      rw [hn, List.length_append, encodeLabel, List.length_cons]
      omega
    have hslice : slice (before ++ encodeLabel label ++ (encodeName labels ++ after))
        (before.length + 1) (before.length + 1 + (UInt8.ofNat label.length).toNat) = label := by
      have hmiddle := slice_append_middle (before ++ [UInt8.ofNat label.length]) label
        (encodeName labels ++ after)
      rw [List.length_append, List.length_singleton] at hmiddle
      rw [hn]
      simpa [encodeLabel] using hmiddle
    have hfirst : (before ++ encodeLabel label ++ (encodeName labels ++ after))[before.length]? =
        some (UInt8.ofNat label.length) := by
      rw [List.append_assoc, List.getElem?_append_right (Nat.le_refl _), Nat.sub_self]
      rfl
    rw [hnext] at hmore
    have hlabel := InPlace.label hfirst (by omega) (by omega) hmore
    rw [hslice] at hlabel
    rw [hpacket, encodeName_cons, List.length_append, ← Nat.add_assoc, ← List.length_append, hnext]
    exact hlabel

/-- The lengths of the labels take the place of the dots; one more, and the root, stand
apart. -/
theorem length_encodeName {labels : List Bytes} (h : labels ≠ []) :
    (encodeName labels).length = (dotted labels).length + 2 := by
  induction labels with
  | nil => exact absurd rfl h
  | cons first rest ih =>
    rw [encodeName_cons, List.length_append, encodeLabel, List.length_cons]
    cases rest with
    | nil => simp [encodeName, dotted]
    | cons second rest =>
      rw [ih (by simp), dotted_cons_cons, List.length_append, List.length_cons]
      omega

/-! ## What the query says -/

/-- The decimal digits of an octet. -/
theorem decimal_label (b : UInt8) :
    1 ≤ (decimal b).length ∧ (decimal b).length ≤ 3 ∧ Printable (decimal b) ∧
      (decimal b).map toLower = decimal b := by
  have hlt := b.toNat_lt
  have hdigit : ∀ d < 10, (32 ≤ (UInt8.ofNat (48 + d)).toNat ∧
      (UInt8.ofNat (48 + d)).toNat ≤ 126) ∧
      toLower (UInt8.ofNat (48 + d)) = UInt8.ofNat (48 + d) := by decide
  have hlast := hdigit (b.toNat % 10) (by omega)
  rw [decimal_eq]
  split
  · next hten =>
    have hone := hdigit b.toNat hten
    simp only [List.length_singleton, List.map_cons, List.map_nil, Printable,
      List.forall_mem_singleton]
    exact ⟨by omega, by omega, hone.1, by rw [hone.2]⟩
  · split
    · next hhundred =>
      have htens := hdigit (b.toNat / 10) (by omega)
      refine ⟨by simp, by simp, ?_, ?_⟩
      · exact List.forall_mem_cons.mpr ⟨htens.1, List.forall_mem_singleton.mpr hlast.1⟩
      · rw [List.map_cons, List.map_singleton, htens.2, hlast.2]
    · have hhundreds := hdigit (b.toNat / 100) (by omega)
      have htens := hdigit (b.toNat / 10 % 10) (by omega)
      refine ⟨by simp, by simp, ?_, ?_⟩
      · exact List.forall_mem_cons.mpr ⟨hhundreds.1,
          List.forall_mem_cons.mpr ⟨htens.1, List.forall_mem_singleton.mpr hlast.1⟩⟩
      · rw [List.map_cons, List.map_cons, List.map_singleton, hhundreds.2, htens.2, hlast.2]

theorem dotted_reverseLabels (ip : Ip) : dotted (reverseLabels ip) = reverseName ip := by
  obtain ⟨a, b, c, d⟩ := ip
  have harpa : 46 :: dotted [ascii "in-addr", ascii "arpa"] = ascii ".in-addr.arpa" := by decide
  simp only [reverseLabels, dotted_cons_cons] at harpa ⊢
  rw [harpa]
  rfl

theorem forall_reverseLabels {P : Bytes → Prop} (hdecimal : ∀ b, P (decimal b))
    (haddr : P (ascii "in-addr")) (harpa : P (ascii "arpa")) (ip : Ip) :
    ∀ label ∈ reverseLabels ip, P label := by
  obtain ⟨a, b, c, d⟩ := ip
  simp [reverseLabels, hdecimal, haddr, harpa]

theorem dnsLabels_reverseLabels (ip : Ip) : DnsLabels (reverseLabels ip) := by
  refine forall_reverseLabels (fun b => ?_) (by decide) (by decide) ip
  obtain ⟨hpos, hle, -⟩ := decimal_label b
  omega

/-- The labels that `writeOctets` writes. -/
def octetLabels (ip : Ip) : Nat → List Bytes
  | 0 => []
  | i + 1 => decimal (byteAt (ipBytes ip) i) :: octetLabels ip i

/-- Bytes take the place of as many others. -/
theorem QueryBuffer.write_middle {buf : QueryBuffer} {before old after : Bytes} (bytes : Bytes)
    (hbuf : buf.1 = before ++ (old ++ after)) (hlen : old.length = bytes.length) :
    ∃ buf', buf.write before.length bytes = some buf' ∧ buf'.1 = before ++ (bytes ++ after) := by
  have htotal := buf.2
  rw [hbuf, List.length_append, List.length_append] at htotal
  refine ⟨_, dif_pos (by omega), ?_⟩
  show buf.1.take before.length ++ (bytes ++ buf.1.drop (before.length + bytes.length)) = _
  rw [hbuf, List.take_left, ← hlen, ← List.drop_drop, List.drop_left, List.drop_left]

/-- An octet is written as a label: its digits first, then their number before them. -/
theorem QueryBuffer.write_label {buf : QueryBuffer} {written rest : Bytes} (label : Bytes)
    (hbuf : buf.1 = written ++ rest) (hroom : label.length < rest.length) :
    ∃ buf₁ buf₂, buf.write (written.length + 1) label = some buf₁ ∧
      buf₁.write written.length [UInt8.ofNat label.length] = some buf₂ ∧
      buf₂.1 = written ++ encodeLabel label ++ rest.drop (label.length + 1) := by
  obtain ⟨first, rest, rfl⟩ := List.exists_cons_of_length_pos (Nat.zero_lt_of_lt hroom)
  rw [List.length_cons] at hroom
  have hdigits : buf.1 =
      written ++ [first] ++ (rest.take label.length ++ rest.drop label.length) := by
    rw [hbuf, List.take_append_drop, List.append_assoc, List.singleton_append]
  obtain ⟨buf₁, hwrite₁, hbuf₁⟩ := write_middle label hdigits (by
    rw [List.length_take]
    omega)
  have hlength : buf₁.1 = written ++ ([first] ++ (label ++ rest.drop label.length)) := by
    rw [hbuf₁, List.append_assoc]
  obtain ⟨buf₂, hwrite₂, hbuf₂⟩ := write_middle [UInt8.ofNat label.length] hlength rfl
  rw [List.length_append, List.length_singleton] at hwrite₁
  refine ⟨buf₁, buf₂, hwrite₁, hwrite₂, ?_⟩
  rw [hbuf₂, List.drop_succ_cons]
  simp [encodeLabel]

/-- **The octets are written as labels**, as long as there is room. -/
theorem writeOctets_eq (ip : Ip) (i : Nat) {buf : QueryBuffer} {written rest : Bytes}
    (hbuf : buf.1 = written ++ rest) (hroom : 4 * i ≤ rest.length) :
    ∃ buf' rest', writeOctets ip i written.length buf =
        some ((written ++ (octetLabels ip i).flatMap encodeLabel).length, buf') ∧
      buf'.1 = written ++ (octetLabels ip i).flatMap encodeLabel ++ rest' ∧
      rest.length ≤ rest'.length + 4 * i := by
  induction i generalizing buf written rest with
  | zero =>
    refine ⟨buf, rest, ?_, ?_, Nat.le_refl _⟩
    · simp [writeOctets, octetLabels]
    · simp [octetLabels, hbuf]
  | succ i ih =>
    obtain ⟨-, hle, -⟩ := decimal_label (byteAt (ipBytes ip) i)
    obtain ⟨buf₁, buf₂, hwrite₁, hwrite₂, hbuf₂⟩ :=
      QueryBuffer.write_label (decimal (byteAt (ipBytes ip) i)) hbuf (by omega)
    obtain ⟨buf', rest', hmore, hbuf', hrest⟩ := ih hbuf₂ (by
      rw [List.length_drop]
      omega)
    have hlen : written.length + 1 + (decimal (byteAt (ipBytes ip) i)).length =
        (written ++ encodeLabel (decimal (byteAt (ipBytes ip) i))).length := by
      rw [List.length_append, encodeLabel, List.length_cons]
      omega
    rw [List.length_drop] at hrest
    refine ⟨buf', rest', ?_, ?_, by omega⟩
    · unfold writeOctets
      simp only [hwrite₁, hwrite₂, Option.bind_eq_bind, Option.bind_some, hlen, hmore]
      simp [octetLabels]
    · rw [hbuf']
      simp [octetLabels]

/-- **The query fits its buffer**, whatever the buffer held. -/
theorem reverseQuery_eq (buf : QueryBuffer) (ip : Ip) :
    reverseQuery buf ip = some (queryOf ip) := by
  have hbuf : buf.1 = [] ++ (buf.1.take 12 ++ buf.1.drop 12) := by simp
  obtain ⟨buf₁, hwrite₁, hbuf₁⟩ := QueryBuffer.write_middle queryHeader hbuf (by
    rw [List.length_take, buf.2]
    rfl)
  rw [List.nil_append] at hbuf₁
  obtain ⟨buf₂, rest, hoctets, hbuf₂, hrest⟩ := writeOctets_eq ip 4 hbuf₁ (by
    rw [List.length_drop, buf.2]
    decide)
  rw [List.length_drop, buf.2] at hrest
  have htail : queryTail.length = 18 := by decide
  have hroom : buf₂.1 = queryHeader ++ (octetLabels ip 4).flatMap encodeLabel ++
      (rest.take queryTail.length ++ rest.drop queryTail.length) := by
    rw [hbuf₂, List.take_append_drop]
  obtain ⟨buf₃, hwrite₃, hbuf₃⟩ := QueryBuffer.write_middle queryTail hroom (by
    rw [List.length_take]
    omega)
  have hname : (octetLabels ip 4).flatMap encodeLabel ++ queryTail =
      encodeName (reverseLabels ip) ++ [0, 12, 0, 1] := by
    have htail : queryTail = encodeLabel (ascii "in-addr") ++ encodeLabel (ascii "arpa") ++
        [0, 0, 12, 0, 1] := by decide
    obtain ⟨a, b, c, d⟩ := ip
    rw [htail]
    simp [octetLabels, reverseLabels, encodeName, byteAt, ipBytes]
  unfold reverseQuery
  rw [List.length_nil] at hwrite₁
  simp only [hwrite₁, hoctets, hwrite₃, Option.bind_eq_bind, Option.bind_some]
  rw [queryOf, hbuf₃, ← hname, ← List.append_assoc, ← List.append_assoc, ← List.length_append,
    List.take_left]

example : queryOf (192, 168, 1, 10) =
    [0x4E, 0x54, 0, 0, 0, 1, 0, 0, 0, 0, 0, 0] ++ 2 :: ascii "10" ++ 1 :: ascii "1" ++
      3 :: ascii "168" ++ 3 :: ascii "192" ++ 7 :: ascii "in-addr" ++ 4 :: ascii "arpa" ++
        [0, 0, 12, 0, 1] := by decide

/-! ## The answer -/

/-- A number in `width` bytes, the highest first. -/
def beBytes (width n : Nat) : Bytes := (leBytes width n).reverse

/-- An answer to a query: what is free in its header and its record, and how the owner of the
record is written. -/
structure Answer where
  id : UInt16
  flags : UInt16
  /-- The owner is a compression pointer to the name in the question; else it is that name,
  spelled out. -/
  pointer : Bool
  rclass : UInt16
  ttl : UInt32

/-- What follows the header of a query. -/
def question (query : Bytes) : Bytes := query.drop dnsHeaderLen

/-- The name in the question of a query, before its type and class. -/
def questionName (query : Bytes) : Bytes := (question query).take ((question query).length - 4)

namespace Answer

/-- The owner of the record. -/
def owner (answer : Answer) (query : Bytes) : Bytes :=
  if answer.pointer then [0xC0, UInt8.ofNat dnsHeaderLen] else questionName query

/-- The header: one question and one answer. -/
def header (answer : Answer) : Bytes :=
  beBytes 2 answer.id.toNat ++ beBytes 2 answer.flags.toNat ++ [0, 1, 0, 1, 0, 0, 0, 0]

/-- Class and time to live of the record. -/
def classTtl (answer : Answer) : Bytes :=
  beBytes 2 answer.rclass.toNat ++ beBytes 4 answer.ttl.toNat

/-- The record after its owner: its type, class, time to live and length, and a name. -/
def data (answer : Answer) (name : Bytes) : Bytes :=
  beBytes 2 dnsTypePtr ++ (answer.classTtl ++ (beBytes 2 name.length ++ name))

/-- The response: the question of the query, and a PTR record with a name. -/
def packet (answer : Answer) (query : Bytes) (name : Bytes) : Bytes :=
  answer.header ++ question query ++ (answer.owner query ++ answer.data name)

end Answer

/-! ## Reading the answer -/

theorem length_beBytes (width n : Nat) : (beBytes width n).length = width := by
  rw [beBytes, List.length_reverse, length_leBytes]

/-- A number that fits two bytes is read back. -/
theorem readU16_beBytes (before after : Bytes) {packet : Bytes} {pos n : Nat}
    (hpacket : packet = before ++ (beBytes 2 n ++ after)) (hpos : pos = before.length)
    (hn : n < 2 ^ 16) : readU16 packet pos = n := by
  have hbytes : beBytes 2 n = [UInt8.ofNat (n / 256), UInt8.ofNat n] := rfl
  have hhigh : byteAt packet pos = UInt8.ofNat (n / 256) := by
    rw [hpacket, hpos, hbytes]
    simp [byteAt]
  have hlow : byteAt packet (pos + 1) = UInt8.ofNat n := by
    rw [hpacket, hpos, hbytes]
    simp [byteAt]
  rw [readU16, hhigh, hlow, UInt8.toNat_ofNat', UInt8.toNat_ofNat']
  omega

/-- A record that was written is there. -/
theorem recordAt_written {packet before owner middle data : Bytes} {rtype : Nat}
    (hpacket : packet = before ++ (owner ++ (beBytes 2 rtype ++ (middle ++
      (beBytes 2 data.length ++ data)))))
    (howner : NameEnds packet before.length (before.length + owner.length))
    (hrtype : rtype < 2 ^ 16) (hmiddle : middle.length = 6) (hdata : data.length < 2 ^ 16) :
    RecordAt packet before.length
      { owner := before.length, rtype, rdata := before.length + owner.length + 10,
        rdlen := data.length } packet.length := by
  have htype : readU16 packet (before.length + owner.length) = rtype := by
    refine readU16_beBytes (before ++ owner) (middle ++ (beBytes 2 data.length ++ data)) ?_
      List.length_append.symm hrtype
    rw [hpacket, List.append_assoc]
  have hrdlen : readU16 packet (before.length + owner.length + 8) = data.length := by
    refine readU16_beBytes (before ++ owner ++ beBytes 2 rtype ++ middle) data ?_ ?_ hdata
    · simp only [hpacket, List.append_assoc]
    · simp only [List.length_append, length_beBytes, hmiddle]
  have hlength : packet.length = before.length + owner.length + 10 + data.length := by
    simp only [hpacket, List.length_append, length_beBytes, hmiddle]
    omega
  have hrecord := RecordAt.intro howner (by omega) (by rw [hrdlen]; omega)
  rw [htype, hrdlen, ← hlength] at hrecord
  exact hrecord

/-- A name is all that is decoded at its place. -/
theorem Decodes.unique {packet : Bytes} {pos : Nat} {name name' : Bytes}
    (h : Decodes packet pos name) (h' : Decodes packet pos name') : name = name' := by
  rw [← nameOf_iff] at h h'
  exact Option.some.inj (h.symm.trans h')

theorem decodes_of_nameAt {packet : Bytes} {pos jumps : Nat} {labels : List Bytes}
    (h : NameAt packet pos jumps labels) (hjumps : jumps ≤ maxJumps) (hne : labels ≠ [])
    (hprint : ∀ label ∈ labels, Printable label) (hlen : (dotted labels).length ≤ 256) :
    Decodes packet pos (dotted labels) :=
  ⟨⟨jumps, labels, h, hjumps, hne, hprint, rfl⟩, hlen⟩

theorem length_reverseName_le (ip : Ip) : (reverseName ip).length ≤ 28 := by
  obtain ⟨a, b, c, d⟩ := ip
  have harpa : (ascii ".in-addr.arpa").length = 13 := by decide
  have ha := (decimal_label a).2.1
  have hb := (decimal_label b).2.1
  have hc := (decimal_label c).2.1
  have hd := (decimal_label d).2.1
  simp only [reverseName, List.length_append, List.length_cons, harpa]
  omega

theorem printable_reverseLabels (ip : Ip) : ∀ label ∈ reverseLabels ip, Printable label :=
  forall_reverseLabels (fun b => (decimal_label b).2.2.1) (by decide) (by decide) ip

/-! ## One address for a name -/

theorem reverseName_eq_formatIp (a b c d : UInt8) :
    reverseName (a, b, c, d) = formatIp (d, c, b, a) ++ ascii ".in-addr.arpa" := by
  simp [reverseName, formatIp]

theorem map_toLower_reverseName (ip : Ip) : (reverseName ip).map toLower = reverseName ip := by
  obtain ⟨a, b, c, d⟩ := ip
  have harpa : (ascii ".in-addr.arpa").map toLower = ascii ".in-addr.arpa" := by decide
  have hdot : toLower 46 = 46 := by decide
  simp only [reverseName, List.map_append, List.map_cons, (decimal_label _).2.2.2, harpa, hdot]

/-- **Two addresses have different names**, also when case does not count. -/
theorem reverseName_injective {ip ip' : Ip}
    (h : eqlIgnoreCase (reverseName ip) (reverseName ip') = true) : ip = ip' := by
  rw [eqlIgnoreCase, beq_iff_eq, map_toLower_reverseName, map_toLower_reverseName] at h
  obtain ⟨a, b, c, d⟩ := ip
  obtain ⟨a', b', c', d'⟩ := ip'
  rw [reverseName_eq_formatIp, reverseName_eq_formatIp, List.append_left_inj] at h
  have hread := congrArg ipStringToBytes h
  rw [ipStringToBytes_formatIp, ipStringToBytes_formatIp] at hread
  simp only [Option.some.injEq, Prod.mk.injEq] at hread
  obtain ⟨rfl, rfl, rfl, rfl⟩ := hread
  rfl

/-! ## The round trip -/

theorem question_queryOf (ip : Ip) :
    question (queryOf ip) = encodeName (reverseLabels ip) ++ [0, 12, 0, 1] := rfl

theorem length_queryOf_le (ip : Ip) : (queryOf ip).length ≤ 46 := by
  have hne : reverseLabels ip ≠ [] := by simp [reverseLabels]
  have hname := length_encodeName hne
  have hle := length_reverseName_le ip
  have hheader : queryHeader.length = 12 := by decide
  rw [dotted_reverseLabels] at hname
  rw [queryOf, List.length_append, List.length_append, hname, hheader]
  simp only [List.length_cons, List.length_nil]
  omega

theorem questionName_queryOf (ip : Ip) :
    questionName (queryOf ip) = encodeName (reverseLabels ip) := by
  rw [questionName, question_queryOf, List.length_append]
  exact List.take_left

namespace Answer

variable (answer : Answer) (ip : Ip) (name : Bytes)

theorem length_header : answer.header.length = 12 := by
  simp only [header, List.length_append, length_beBytes, List.length_cons, List.length_nil]

theorem length_classTtl : answer.classTtl.length = 6 := by
  simp only [classTtl, List.length_append, length_beBytes]

/-- What comes before the record. -/
def before (answer : Answer) (ip : Ip) : Bytes := answer.header ++ question (queryOf ip)

/-- The name in the question is right after the header. -/
theorem question_inPlace : InPlace (answer.packet (queryOf ip) name) 12 (reverseLabels ip) none
    (12 + (encodeName (reverseLabels ip)).length) := by
  have hname := inPlace_encodeName (dnsLabels_reverseLabels ip) answer.header
    ([0, 12, 0, 1] ++ (answer.owner (queryOf ip) ++ answer.data name))
  rw [length_header] at hname
  simpa only [packet, question_queryOf, List.append_assoc] using hname

/-- The owner of the record is the name in the question, either way to write it. -/
theorem owner_inPlace : ∃ jumps ≤ maxJumps,
    NameAt (answer.packet (queryOf ip) name) (answer.before ip).length jumps (reverseLabels ip) ∧
      NameEnds (answer.packet (queryOf ip) name) (answer.before ip).length
        ((answer.before ip).length + (answer.owner (queryOf ip)).length) := by
  have hquestion := answer.question_inPlace ip name
  by_cases hpointer : answer.pointer = true
  · have howner : answer.owner (queryOf ip) = [0xC0, 12] := if_pos hpointer
    have hpacket : answer.packet (queryOf ip) name =
        answer.before ip ++ ([0xC0, 12] ++ answer.data name) := by
      rw [packet, howner]
      rfl
    have hhigh : (answer.packet (queryOf ip) name)[(answer.before ip).length]? = some 0xC0 := by
      rw [hpacket]
      simp
    have hlow : (answer.packet (queryOf ip) name)[(answer.before ip).length + 1]? = some 12 := by
      rw [hpacket]
      simp
    have hplace := InPlace.pointer hhigh (by decide) hlow
    refine ⟨1, by decide, NameAt.follow hplace (NameAt.whole hquestion), ?_⟩
    rw [howner]
    exact ⟨_, _, hplace⟩
  · have howner : answer.owner (queryOf ip) = encodeName (reverseLabels ip) := by
      rw [owner, if_neg hpointer, questionName_queryOf]
    have hpacket : answer.packet (queryOf ip) name =
        answer.before ip ++ (encodeName (reverseLabels ip) ++ answer.data name) := by
      rw [packet, howner]
      rfl
    have hplace := inPlace_encodeName (dnsLabels_reverseLabels ip) (answer.before ip)
      (answer.data name)
    rw [← hpacket] at hplace
    refine ⟨0, by decide, NameAt.whole hplace, ?_⟩
    rw [howner]
    exact ⟨_, _, hplace⟩

/-- The one record of the response. -/
def record (answer : Answer) (ip : Ip) (name : Bytes) : Record where
  owner := (answer.before ip).length
  rtype := dnsTypePtr
  rdata := (answer.before ip).length + (answer.owner (queryOf ip)).length + 10
  rdlen := name.length

theorem readU16_header : readU16 (answer.packet (queryOf ip) name) 4 = 1 ∧
    readU16 (answer.packet (queryOf ip) name) 6 = 1 ∧
      readU16 (answer.packet (queryOf ip) name) 8 = 0 ∧
        readU16 (answer.packet (queryOf ip) name) 10 = 0 := by
  have hbytes : ∀ n, beBytes 2 n = [UInt8.ofNat (n / 256), UInt8.ofNat n] := fun n => rfl
  simp [readU16, byteAt, packet, header, hbytes]

/-- **The response is well formed**, and has this record only. -/
theorem reading (hlen : name.length < 2 ^ 16) :
    Reading (answer.packet (queryOf ip) name) [answer.record ip name] true := by
  obtain ⟨hquestions, hanswers, hauthority, hadditional⟩ := answer.readU16_header ip name
  obtain ⟨-, -, -, howner⟩ := answer.owner_inPlace ip name
  have hrecord := recordAt_written rfl howner (by decide) answer.length_classTtl hlen
  have hend : 12 + (encodeName (reverseLabels ip)).length + 4 = (answer.before ip).length := by
    rw [before, List.length_append, length_header, question_queryOf, List.length_append,
      List.length_cons, List.length_cons, List.length_cons, List.length_singleton]
    omega
  have hlength : (answer.before ip).length ≤ (answer.packet (queryOf ip) name).length := by
    rw [packet, List.length_append]
    exact Nat.le_add_right _ _
  have hstart : QuestionsAt (answer.packet (queryOf ip) name) 1 dnsHeaderLen
      (answer.before ip).length := by
    rw [← hend]
    exact QuestionsAt.question ⟨_, _, answer.question_inPlace ip name⟩ (by omega) .done
  rw [← hquestions] at hstart
  refine Reading.message ?_ hstart ?_
  · refine Nat.le_trans ?_ hlength
    rw [← hend]
    unfold dnsHeaderLen
    omega
  · rw [hanswers, hauthority, hadditional]
    exact RecordsAt.record hrecord .done

/-- The owner of the record reads as the name of the address. -/
theorem owner_decodes :
    Decodes (answer.packet (queryOf ip) name) (answer.record ip name).owner (reverseName ip) := by
  obtain ⟨jumps, hjumps, hname, -⟩ := answer.owner_inPlace ip name
  have hshort : (dotted (reverseLabels ip)).length ≤ 256 := by
    rw [dotted_reverseLabels]
    exact Nat.le_trans (length_reverseName_le ip) (by decide)
  rw [← dotted_reverseLabels]
  refine decodes_of_nameAt hname hjumps ?_ (printable_reverseLabels ip) hshort
  simp [reverseLabels]

/-- The record is the answer to a query for the address, and for no other. -/
theorem namesSender_iff_eq («from» : Ip) :
    NamesSender (answer.packet (queryOf ip) name) «from» (answer.record ip name) ↔
      «from» = ip := by
  have howner := answer.owner_decodes ip name
  constructor
  · rintro ⟨-, owner, hdecodes, hsame⟩
    rw [← howner.unique hdecodes] at hsame
    exact (reverseName_injective hsame).symm
  · rintro rfl
    refine ⟨rfl, _, howner, ?_⟩
    rw [eqlIgnoreCase, beq_self_eq_true]

/-- The data of the record reads as the host name. -/
theorem data_decodes {labels : List Bytes} (hne : labels ≠ []) (hdns : DnsLabels labels)
    (hprint : ∀ label ∈ labels, Printable label) (hlen : (dotted labels).length ≤ 256) :
    Decodes (answer.packet (queryOf ip) (encodeName labels))
      (answer.record ip (encodeName labels)).rdata (dotted labels) := by
  have hplace := inPlace_encodeName hdns (answer.before ip ++ (answer.owner (queryOf ip) ++
    (beBytes 2 dnsTypePtr ++ (answer.classTtl ++ beBytes 2 (encodeName labels).length)))) []
  have hpos : (answer.before ip ++ (answer.owner (queryOf ip) ++ (beBytes 2 dnsTypePtr ++
      (answer.classTtl ++ beBytes 2 (encodeName labels).length)))).length =
        (answer.record ip (encodeName labels)).rdata := by
    simp only [record, List.length_append, length_beBytes, length_classTtl]
    omega
  have hpacket : answer.packet (queryOf ip) (encodeName labels) =
      answer.before ip ++ (answer.owner (queryOf ip) ++ (beBytes 2 dnsTypePtr ++
        (answer.classTtl ++ beBytes 2 (encodeName labels).length))) ++
          (encodeName labels ++ []) := by
    simp only [packet, before, data, List.append_assoc, List.append_nil]
  rw [hpos, ← hpacket] at hplace
  exact decodes_of_nameAt (NameAt.whole hplace) (Nat.zero_le _) hne hprint hlen

end Answer

/-- **An answer to a reverse query names the host it is about, and no other**: for every address,
every host name that fits the output, and either way to write the owner.

A host name has at least one label; the labels are printable, of 1 to 63 characters, and with
dots they have at most 256.
-/
theorem reverseQuery_answered (ip : Ip) {labels : List Bytes} (hne : labels ≠ [])
    (hdns : DnsLabels labels) (hprint : ∀ label ∈ labels, Printable label)
    (hlen : (dotted labels).length ≤ 256) (answer : Answer) (buf : QueryBuffer)
    (out ownerBuf : Buffer) :
    ∃ query, reverseQuery buf ip = some query ∧ query.length ≤ 64 ∧
      hostName (answer.packet query (encodeName labels)) ip out ownerBuf = some (dotted labels) ∧
      ∀ other ≠ ip,
        hostName (answer.packet query (encodeName labels)) other out ownerBuf = none := by
  have hshort : (encodeName labels).length < 2 ^ 16 := by
    rw [length_encodeName hne]
    omega
  have hreading := answer.reading ip (encodeName labels) hshort
  refine ⟨queryOf ip, reverseQuery_eq buf ip, ?_, ?_, ?_⟩
  · exact Nat.le_trans (length_queryOf_le ip) (by decide)
  · rw [hostName_eq_iff]
    have hone : [answer.record ip (encodeName labels)] =
      [] ++ answer.record ip (encodeName labels) :: [] := rfl
    have hdata := answer.data_decodes ip hne hdns hprint hlen
    refine ⟨_, _, hreading, SenderName.reverse hone (by simp)
      ((answer.namesSender_iff_eq ip _ ip).mpr rfl) ?_⟩
    intro n
    constructor
    · intro hname
      rw [← Option.some.inj hname]
      exact hdata
    · intro hdecodes
      rw [hdata.unique hdecodes]
  · intro other hother
    rw [hostName_eq_iff]
    refine ⟨_, _, hreading, SenderName.nobody ?_ (Or.inr ?_)⟩
    · intro r hr
      rw [List.mem_singleton.mp hr, answer.namesSender_iff_eq]
      exact hother
    · intro r hr haddress
      rw [List.mem_singleton.mp hr] at haddress
      have hptr : dnsTypePtr = dnsTypeA := haddress.1
      exact absurd hptr (by decide)

theorem reverseQuery_answered_printer :
    ∃ query, reverseQuery ⟨List.replicate 64 0, rfl⟩ (192, 168, 1, 10) = some query ∧
      query.length ≤ 64 ∧
      hostName (({ id := 0, flags := 0x8400, pointer := true, rclass := 0x8001, ttl := 120 } :
        Answer).packet query (encodeName [ascii "printer", ascii "local"])) (192, 168, 1, 10)
          (Vector.replicate 256 0) (Vector.replicate 256 0) = some (ascii "printer.local") ∧
      ∀ other ≠ (192, 168, 1, 10),
        hostName (({ id := 0, flags := 0x8400, pointer := true, rclass := 0x8001, ttl := 120 } :
          Answer).packet query (encodeName [ascii "printer", ascii "local"])) other
            (Vector.replicate 256 0) (Vector.replicate 256 0) = none := by
  have hname : dotted [ascii "printer", ascii "local"] = ascii "printer.local" := by decide
  rw [← hname]
  refine reverseQuery_answered _ (by decide) ?_ (by decide) (by decide) _ _ _ _
  unfold DnsLabels
  decide

end NetScanner.Names
