import NetScanner.Tables.Agreement

/-!
# The vendor table survives packing

What a manuf file says, in its own terms: `Entry24` is the grammar of a line for a 24-bit
prefix, and `FirstVendor` the vendor the first such line of a text names.

`packLine_iff` says that the packer's pattern reads exactly the lines of the grammar, and
`vendorTable_survives` that a text packed at build time and searched at run time gives the
vendor of the first such line, for every address.
-/

namespace NetScanner.Oui

open Infra PackedDb Net

/-! ## The grammar of a line -/

/-- Only white space. -/
def Blank (bytes : Bytes) : Prop := ∀ b ∈ bytes, isSpace b = true

/-- A name without white space in it. -/
structure Word (name : Bytes) : Prop where
  ne_nil : name ≠ []
  solid : ∀ b ∈ name, isSpace b = false

/-- A name with no white space at its ends. -/
structure Phrase (name : Bytes) : Prop where
  ne_nil : name ≠ []
  head : ∀ b, name.head? = some b → isSpace b = false
  last : ∀ b, name.getLast? = some b → isSpace b = false

/-- `Names rest vendor`: what follows the prefix names `vendor`, by its long name if there is
one, else by its short name. -/
inductive Names : Bytes → Bytes → Prop
  | short {gap name trail : Bytes} (hgap : Blank gap) (hne : gap ≠ []) (hname : Word name)
      (htrail : Blank trail) : Names (gap ++ (name ++ trail)) name
  | long {gap name between long trail : Bytes} (hgap : Blank gap) (hne : gap ≠ [])
      (hname : Word name) (hbetween : Blank between) (hne' : between ≠ []) (hlong : Phrase long)
      (htrail : Blank trail) : Names (gap ++ (name ++ (between ++ (long ++ trail)))) long

/-- `Entry24 line octets vendor`: the line is an entry for a 24-bit prefix. -/
inductive Entry24 : Bytes → Prefix24 → Bytes → Prop
  | mk {lead rest vendor : Bytes} {a0 a1 s0 b0 b1 s1 c0 c1 o0 o1 o2 : UInt8} (hlead : Blank lead)
      (h0 : hexPair a0 a1 = some o0) (hs0 : anyOf ":-" s0 = true) (h1 : hexPair b0 b1 = some o1)
      (hs1 : anyOf ":-" s1 = true) (h2 : hexPair c0 c1 = some o2) (hnames : Names rest vendor) :
      Entry24 (lead ++ (a0 :: a1 :: s0 :: b0 :: b1 :: s1 :: c0 :: c1 :: rest)) ⟨o0, o1, o2⟩ vendor

theorem Word.phrase {name : Bytes} (h : Word name) : Phrase name where
  ne_nil := h.ne_nil
  head b hb := h.solid b (List.mem_of_head? hb)
  last b hb := h.solid b (List.mem_of_getLast? hb)

theorem Phrase.trim {name : Bytes} (h : Phrase name) : Infra.trim isSpace name = name :=
  trim_eq_self h.head h.last

/-! ## The pattern reads the grammar -/

theorem matchNames_word {gap name : Bytes} (hgap : Blank gap) (hne : gap ≠ []) (hname : Word name) :
    matchNames (gap ++ name) = some (name, none) := by
  obtain ⟨htake, hdrop⟩ := takeWhile_dropWhile_append hgap hname.phrase.head
  have hsolid : ∀ b ∈ name, (!isSpace b) = true := fun b hb => by rw [hname.solid b hb]; rfl
  have hall : name.takeWhile (!isSpace ·) = name ∧ name.dropWhile (!isSpace ·) = [] := by
    have hend : ∀ b, ([] : Bytes).head? = some b → (!isSpace b) = false := by simp
    simpa using takeWhile_dropWhile_append hsolid hend
  unfold matchNames
  rw [htake, if_neg hne]
  simp only [hdrop, hall.1, hall.2, if_neg hname.ne_nil]

theorem matchNames_phrase {gap name between long : Bytes} (hgap : Blank gap) (hne : gap ≠ [])
    (hname : Word name) (hbetween : Blank between) (hne' : between ≠ []) (hlong : Phrase long) :
    matchNames (gap ++ (name ++ (between ++ long))) = some (name, some long) := by
  have hhead : ∀ b, (name ++ (between ++ long)).head? = some b → isSpace b = false := by
    intro b hb
    rw [List.head?_append_of_ne_nil _ hname.ne_nil] at hb
    exact hname.phrase.head b hb
  have hstop : ∀ b, (between ++ long).head? = some b → (!isSpace b) = false := by
    intro b hb
    rw [List.head?_append_of_ne_nil _ hne'] at hb
    rw [hbetween b (List.mem_of_head? hb)]
    rfl
  have hsolid : ∀ b ∈ name, (!isSpace b) = true := fun b hb => by rw [hname.solid b hb]; rfl
  obtain ⟨htake, hdrop⟩ := takeWhile_dropWhile_append hgap hhead
  obtain ⟨htake', hdrop'⟩ := takeWhile_dropWhile_append hsolid hstop
  obtain ⟨-, hdrop''⟩ := takeWhile_dropWhile_append hbetween hlong.head
  unfold matchNames
  rw [htake, if_neg hne]
  simp only [hdrop, htake', hdrop', if_neg hname.ne_nil]
  cases between with
  | nil => exact absurd rfl hne'
  | cons b rest =>
    show some (name, some ((b :: rest ++ long).dropWhile isSpace)) = some (name, some long)
    rw [hdrop'']

/-- What is left of a text that does not end in white space. -/
theorem phrase_dropWhile {text : Bytes} (hne : text ≠ [])
    (hlast : ∀ b, text.getLast? = some b → isSpace b = false) :
    Phrase (text.dropWhile isSpace) := by
  obtain ⟨dropped, hdropped⟩ := List.dropWhile_suffix isSpace (l := text)
  have hne' : text.dropWhile isSpace ≠ [] := by
    intro hcon
    rw [List.dropWhile_eq_nil_iff] at hcon
    have hblank := hcon (text.getLast hne) (List.getLast_mem hne)
    rw [hlast _ (List.getLast?_eq_some_getLast hne)] at hblank
    simp at hblank
  refine ⟨hne', fun b hb => head?_dropWhile_not hb, ?_⟩
  intro b hb
  apply hlast
  rw [← hdropped, List.getLast?_append_of_ne_nil _ hne', hb]

/-- **The names of the pattern are the names of the grammar**, on a line that does not end in
white space. -/
theorem names_of_matchNames {rest shortName : Bytes} {longName : Option Bytes}
    (hlast : ∀ b, rest.getLast? = some b → isSpace b = false)
    (h : matchNames rest = some (shortName, longName)) {trail : Bytes} (htrail : Blank trail) :
    Names (rest ++ trail) (vendorName shortName longName) := by
  obtain ⟨gap, tail, rfl, hgap, hne, hshort, hsolid, hhead, hvendor⟩ := matchNames_eq_some h
  have hword : Word shortName := ⟨hshort, hsolid⟩
  rw [hvendor, List.append_assoc, List.append_assoc]
  by_cases htail : tail = []
  · subst htail
    exact .short hgap hne hword htrail
  · have hend : ∀ b, tail.getLast? = some b → isSpace b = false := by
      intro b hb
      apply hlast
      rw [List.getLast?_append_of_ne_nil _ (by simp [htail]),
        List.getLast?_append_of_ne_nil _ htail, hb]
    have hphrase := phrase_dropWhile htail hend
    have hbetween : tail.takeWhile isSpace ≠ [] := by
      cases tail with
      | nil => exact absurd rfl htail
      | cons b bs => simp [List.takeWhile_cons_of_pos (hhead b rfl)]
    rw [if_neg hphrase.ne_nil, hphrase.trim]
    nth_rewrite 1 [← List.takeWhile_append_dropWhile (p := isSpace) (l := tail)]
    rw [List.append_assoc]
    exact .long hgap hne hword (fun c hc => List.mem_takeWhile_imp hc) hbetween hphrase htrail

/-- A hex digit is no white space, and does not start a comment. -/
theorem hexDigit_solid {b : UInt8} (h : hexDigit b ≠ none) : isSpace b = false ∧ b ≠ 35 := by
  revert h
  exact forall_byte (P := fun b => hexDigit b ≠ none → isSpace b = false ∧ b ≠ 35)
    (by decide +kernel) b

theorem hexPair_solid {a b o : UInt8} (h : hexPair a b = some o) : isSpace a = false ∧ a ≠ 35 := by
  apply hexDigit_solid
  intro hcon
  simp [hexPair, hcon] at h

theorem entry24_of_packLine {line vendor : Bytes} {octets : Prefix24}
    (h : packLine line = some ⟨octets, vendor⟩) : Entry24 line octets vendor := by
  obtain ⟨lead, trail, hline, hlead, htrail⟩ := trim_parts isSpace line
  have hlast : ∀ b, (trim isSpace line).getLast? = some b → isSpace b = false :=
    fun b => trim_last
  unfold packLine at h
  generalize trim isSpace line = text at h hline hlast
  simp only at h
  split at h
  · simp at h
  · simp only [Option.bind_eq_bind, Option.bind_eq_some_iff] at h
    obtain ⟨⟨octets', rest⟩, hmatch, ⟨shortName, longName⟩, hnames, hentry⟩ := h
    obtain ⟨rfl, rfl⟩ := OuiEntry.mk.inj (Option.some.inj hentry)
    obtain ⟨a0, a1, s0, b0, b1, s1, c0, c1, rfl, hs0, hs1, h0, h1, h2⟩ :=
      matchPrefix_eq_some hmatch
    have hne : rest ≠ [] := by
      rintro rfl
      simp [matchNames] at hnames
    have hend : ∀ b, rest.getLast? = some b → isSpace b = false := by
      intro b hb
      apply hlast
      rw [← List.singleton_append]
      simp only [List.getLast?_cons, hb, Option.getD_some, List.singleton_append]
    rw [hline]
    exact .mk hlead h0 hs0 h1 hs1 h2 (names_of_matchNames hend hnames htrail)

/-- Names that follow a prefix, without the white space at the end of the line. -/
theorem Names.split {rest vendor : Bytes} (h : Names rest vendor) :
    ∃ core trail shortName longName, rest = core ++ trail ∧ Blank trail ∧ core ≠ [] ∧
      (∀ b, core.getLast? = some b → isSpace b = false) ∧
      matchNames core = some (shortName, longName) ∧ vendorName shortName longName = vendor := by
  cases h with
  | @short gap name trail hgap hne hname htrail =>
    refine ⟨gap ++ vendor, trail, vendor, none, by rw [List.append_assoc], htrail, by simp [hne],
      ?_, matchNames_word hgap hne hname, hname.phrase.trim⟩
    intro b hb
    rw [List.getLast?_append_of_ne_nil _ hname.ne_nil] at hb
    exact hname.phrase.last b hb
  | @long gap name between long trail hgap hne hname hbetween hne' hlong htrail =>
    refine ⟨gap ++ (name ++ (between ++ vendor)), trail, name, some vendor, by simp, htrail,
      by simp [hne], ?_, matchNames_phrase hgap hne hname hbetween hne' hlong, ?_⟩
    · intro b hb
      rw [List.getLast?_append_of_ne_nil _ (by simp [hlong.ne_nil]),
        List.getLast?_append_of_ne_nil _ (by simp [hlong.ne_nil]),
        List.getLast?_append_of_ne_nil _ hlong.ne_nil] at hb
      exact hlong.last b hb
    · have hne := hlong.ne_nil
      have htrim := hlong.trim
      cases vendor with
      | nil => exact absurd rfl hne
      | cons c cs =>
        show trim isSpace (trim isSpace (c :: cs)) = c :: cs
        rw [htrim, htrim]

theorem packLine_of_entry24 {line vendor : Bytes} {octets : Prefix24}
    (h : Entry24 line octets vendor) : packLine line = some ⟨octets, vendor⟩ := by
  cases h with
  | @mk lead rest vendor a0 a1 s0 b0 b1 s1 c0 c1 o0 o1 o2 hlead h0 hs0 h1 hs1 h2 hnames =>
    obtain ⟨core, trail, shortName, longName, rfl, htrail, hne, hlast, hmatch, hvendor⟩ :=
      hnames.split
    obtain ⟨hsolid, hcomment⟩ := hexPair_solid h0
    have htrim : trim isSpace (lead ++ (a0 :: a1 :: s0 :: b0 :: b1 :: s1 :: c0 :: c1 ::
        (core ++ trail))) = a0 :: a1 :: s0 :: b0 :: b1 :: s1 :: c0 :: c1 :: core := by
      refine @trim_append _ _ (a0 :: a1 :: s0 :: b0 :: b1 :: s1 :: c0 :: c1 :: core) _ hlead ?_ ?_
        (by simp) htrail
      · intro b hb
        rw [List.head?_cons, Option.some.injEq] at hb
        rwa [← hb]
      · intro b hb
        apply hlast
        have hl := List.getLast?_eq_some_getLast hne
        simp only [List.getLast?_cons, hl, Option.getD_some, Option.some.injEq] at hb
        rw [hl, hb]
    unfold packLine
    simp only [htrim]
    rw [if_neg (by simp [hcomment])]
    simp only [matchPrefix, hs0, hs1, Bool.and_self, if_true, h0, h1, h2, Option.bind_eq_bind,
      Option.bind_some, hmatch, hvendor]
    rfl

/-- **The packer reads exactly the lines of the grammar.** -/
theorem packLine_iff {line vendor : Bytes} {octets : Prefix24} :
    packLine line = some ⟨octets, vendor⟩ ↔ Entry24 line octets vendor :=
  ⟨entry24_of_packLine, packLine_of_entry24⟩

/-! ## The file -/

/-- `FirstVendor text octets vendor`: the first line of the text for the prefix names
`vendor`. -/
def FirstVendor (text : Bytes) (octets : Prefix24) (vendor : Bytes) : Prop :=
  ∃ before line after, text.splitOn 10 = before ++ line :: after ∧ Entry24 line octets vendor ∧
    ∀ earlier ∈ before, ∀ other, ¬Entry24 earlier octets other

theorem find?_packLine_none {lines : List Bytes} {octets : Prefix24}
    (h : ∀ line ∈ lines, ∀ vendor, ¬Entry24 line octets vendor) :
    (lines.filterMap packLine).find? (fun e => e.octets = octets) = none := by
  rw [List.find?_eq_none]
  rintro ⟨o, vendor⟩ hmem hoctets
  obtain ⟨line, hline, hpack⟩ := List.mem_filterMap.mp hmem
  rw [decide_eq_true_eq] at hoctets
  subst hoctets
  exact h line hline vendor (packLine_iff.mp hpack)

/-- The first entry for a prefix is the entry of the first line for it. -/
theorem find?_tempEntries {text vendor : Bytes} {octets : Prefix24} (hplain : PlainText text)
    (h : FirstVendor text octets vendor) :
    (tempEntries text).find? (fun e => e.octets = octets) = some ⟨octets, vendor⟩ := by
  obtain ⟨before, line, after, hsplit, hline, hbefore⟩ := h
  rw [tempEntries_eq hplain, hsplit, List.filterMap_append, List.find?_append,
    find?_packLine_none hbefore, List.filterMap_cons_some (packLine_iff.mpr hline), Option.none_or,
    List.find?_cons_of_pos (by simp)]

/--
**The vendor table survives packing.** The file packed from a plain text opens, and for every
address its table gives the vendor the first line for the address names, cut to 255 bytes, or
nothing when there is no such line.
-/
theorem vendorTable_survives {text : Bytes} (hplain : PlainText text) :
    ∃ bytes table, parseAndPack text = some bytes ∧ openOui bytes = .ok table ∧ ∀ mac,
      (∀ vendor, FirstVendor text (target mac) vendor →
        lookupEmbeddedVendor table mac = some (cut vendor)) ∧
      ((∀ line ∈ text.splitOn 10, ∀ vendor, ¬Entry24 line (target mac) vendor) →
        lookupEmbeddedVendor table mac = none) := by
  obtain ⟨bytes, table, hpack, hopen, hlookup⟩ := parseAndPack_reads text
  refine ⟨bytes, table, hpack, hopen, fun mac => ⟨?_, ?_⟩⟩
  · intro vendor hfirst
    rw [hlookup, find?_tempEntries hplain hfirst]
    rfl
  · intro hnone
    rw [hlookup, tempEntries_eq hplain, find?_packLine_none hnone]
    rfl

/-- The first line of `blockText` is for the prefix of `blockMac`, and nothing in it for
another. -/
theorem vendorTable_survives_block :
    ∃ bytes table, parseAndPack blockText = some bytes ∧ openOui bytes = .ok table ∧
      lookupEmbeddedVendor table blockMac = some (ascii "IEEE Registration") ∧
      lookupEmbeddedVendor table #v[0, 1, 2, 3, 4, 5] = none := by
  obtain ⟨bytes, table, hpack, hopen, hlookup⟩ :=
    @vendorTable_survives blockText (by decide)
  refine ⟨bytes, table, hpack, hopen, ?_, ?_⟩
  · refine (hlookup blockMac).1 (ascii "IEEE Registration") ⟨[], _, _, rfl, ?_, by simp⟩
    exact packLine_iff.mp (by decide)
  · refine (hlookup _).2 ?_
    intro line hline vendor hentry
    have hnone : ∀ line ∈ blockText.splitOn 10, ∀ e, packLine line = some e →
        e.octets ≠ target #v[0, 1, 2, 3, 4, 5] := by decide
    exact hnone line hline _ (packLine_iff.mpr hentry) rfl

end NetScanner.Oui
