import NetScanner.Infra.Bytes

/-!
# UTF-8

Texts are lists of characters, and the core library encodes and decodes one character; this
module does whole texts.

`decode?` refuses bytes that are not UTF-8, `decodeIgnore` skips them. A text cut at a byte
may end in the middle of a character; what `decodeIgnore` makes of the cut is the longest
start of the text that fits (`decodeIgnore_take_utf8`). The cut is a text itself just when the
next byte starts a character (`isUtf8_take_iff`).
-/

namespace NetScanner.Infra

/-- The bytes of a text. -/
def utf8 (text : List Char) : Bytes := text.flatMap String.utf8EncodeChar

/-- The character whose encoding the bytes start with. -/
def decodeChar? (bytes : Bytes) : Option Char := bytes.toByteArray.utf8DecodeChar? 0

/-- The text of the bytes; none when they are not UTF-8. The first `skip` bytes belong to the
character before. -/
def decodeFrom? : Nat → Bytes → Option (List Char)
  | _, [] => some []
  | skip + 1, _ :: rest => decodeFrom? skip rest
  | 0, b :: rest =>
    match decodeChar? (b :: rest) with
    | none => none
    | some c => (decodeFrom? (c.utf8Size - 1) rest).map (c :: ·)

def decode? (bytes : Bytes) : Option (List Char) := decodeFrom? 0 bytes

/-- The text of the bytes, without those that do not start a character. The first `skip` bytes
belong to the character before. -/
def decodeIgnoreFrom : Nat → Bytes → List Char
  | _, [] => []
  | skip + 1, _ :: rest => decodeIgnoreFrom skip rest
  | 0, b :: rest =>
    match decodeChar? (b :: rest) with
    | none => decodeIgnoreFrom 0 rest
    | some c => c :: decodeIgnoreFrom (c.utf8Size - 1) rest

def decodeIgnore (bytes : Bytes) : List Char := decodeIgnoreFrom 0 bytes

/-- The longest start of the text that fits into `limit` bytes. -/
def fit : Nat → List Char → List Char
  | _, [] => []
  | limit, c :: rest => if c.utf8Size ≤ limit then c :: fit (limit - c.utf8Size) rest else []

/-! ## One character -/

@[simp] theorem utf8_nil : utf8 [] = [] := rfl

@[simp] theorem utf8_cons (c : Char) (rest : List Char) :
    utf8 (c :: rest) = String.utf8EncodeChar c ++ utf8 rest := rfl

theorem decodeChar?_append (c : Char) (rest : Bytes) :
    decodeChar? (String.utf8EncodeChar c ++ rest) = some c := by
  rw [decodeChar?, List.toByteArray_append]
  exact ByteArray.utf8DecodeChar?_utf8EncodeChar_append

theorem decodeChar?_eq_some {bytes : Bytes} {c : Char} (h : decodeChar? bytes = some c) :
    ∃ rest, bytes = String.utf8EncodeChar c ++ rest := by
  obtain ⟨l, hl⟩ := ByteArray.exists_of_utf8DecodeChar?_eq_some h
  refine ⟨l.data.toList, ?_⟩
  have := congrArg (fun b : ByteArray => b.data.toList) hl
  simpa using this

/-- An encoding starts with a byte that says so. -/
theorem utf8EncodeChar_eq_cons (c : Char) :
    ∃ b rest, String.utf8EncodeChar c = b :: rest ∧ b.IsUTF8FirstByte ∧
      rest.length = c.utf8Size - 1 := by
  have hlen := String.length_utf8EncodeChar c
  have hpos := c.utf8Size_pos
  cases henc : String.utf8EncodeChar c with
  | nil =>
    rw [henc, List.length_nil] at hlen
    omega
  | cons b rest =>
    refine ⟨b, rest, rfl, ?_, ?_⟩
    · have hfirst := UInt8.isUTF8FirstByte_getElem_zero_utf8EncodeChar (c := c)
      simpa [henc] using hfirst
    · rw [henc, List.length_cons] at hlen
      omega

/-- No other byte of an encoding starts one. -/
theorem not_first_of_mem_tail {c : Char} {b : UInt8} (h : b ∈ (String.utf8EncodeChar c).tail) :
    ¬b.IsUTF8FirstByte := by
  obtain ⟨i, hi, rfl⟩ := List.getElem_of_mem h
  rw [List.getElem_tail, UInt8.isUTF8FirstByte_getElem_utf8EncodeChar]
  omega

theorem decodeChar?_of_not_first {b : UInt8} (rest : Bytes) (h : ¬b.IsUTF8FirstByte) :
    decodeChar? (b :: rest) = none := by
  cases hdec : decodeChar? (b :: rest) with
  | none => rfl
  | some c =>
    obtain ⟨more, hmore⟩ := decodeChar?_eq_some hdec
    obtain ⟨b', tail, henc, hfirst, -⟩ := utf8EncodeChar_eq_cons c
    rw [henc, List.cons_append, List.cons.injEq] at hmore
    rw [hmore.1] at h
    exact absurd hfirst h

/-- The start of an encoding is not an encoding. -/
theorem decodeChar?_take (c : Char) {n : Nat} (h : n < c.utf8Size) :
    decodeChar? ((String.utf8EncodeChar c).take n) = none := by
  cases hdec : decodeChar? ((String.utf8EncodeChar c).take n) with
  | none => rfl
  | some c' =>
    obtain ⟨rest, hrest⟩ := decodeChar?_eq_some hdec
    have hsplit := List.take_append_drop n (String.utf8EncodeChar c)
    rw [hrest, List.append_assoc] at hsplit
    have hsame : c' = c := by
      have hc := decodeChar?_append c []
      rw [List.append_nil, ← hsplit, decodeChar?_append, Option.some.injEq] at hc
      exact hc
    have hlen := congrArg List.length hrest
    rw [hsame, List.length_take, List.length_append, String.length_utf8EncodeChar] at hlen
    omega

/-! ## Whole texts -/

theorem decodeFrom?_skip (a rest : Bytes) : decodeFrom? a.length (a ++ rest) = decode? rest := by
  induction a with
  | nil =>
    cases rest with
    | nil => rfl
    | cons b rest => rfl
  | cons b a ih =>
    rw [List.length_cons, List.cons_append, decodeFrom?]
    exact ih

theorem decodeIgnoreFrom_skip (a rest : Bytes) :
    decodeIgnoreFrom a.length (a ++ rest) = decodeIgnore rest := by
  induction a with
  | nil =>
    cases rest with
    | nil => rfl
    | cons b rest => rfl
  | cons b a ih =>
    rw [List.length_cons, List.cons_append, decodeIgnoreFrom]
    exact ih

theorem decode?_append (c : Char) (rest : Bytes) :
    decode? (String.utf8EncodeChar c ++ rest) = (decode? rest).map (c :: ·) := by
  have hdec := decodeChar?_append c rest
  obtain ⟨b, tail, henc, -, hlen⟩ := utf8EncodeChar_eq_cons c
  rw [henc, List.cons_append] at hdec ⊢
  simp only [decode?, decodeFrom?, hdec]
  rw [← hlen, decodeFrom?_skip]
  rfl

theorem decodeIgnore_append (c : Char) (rest : Bytes) :
    decodeIgnore (String.utf8EncodeChar c ++ rest) = c :: decodeIgnore rest := by
  have hdec := decodeChar?_append c rest
  obtain ⟨b, tail, henc, -, hlen⟩ := utf8EncodeChar_eq_cons c
  rw [henc, List.cons_append] at hdec ⊢
  simp only [decodeIgnore, decodeIgnoreFrom, hdec]
  rw [← hlen, decodeIgnoreFrom_skip]
  rfl

/-- **A text is read back from its bytes.** -/
theorem decode?_utf8 (text : List Char) : decode? (utf8 text) = some text := by
  induction text with
  | nil => rfl
  | cons c rest ih => rw [utf8_cons, decode?_append, ih, Option.map_some]

/-- Bytes that start nothing are all skipped. -/
theorem decodeIgnore_of_not_first {bytes : Bytes} (h : ∀ b ∈ bytes, ¬b.IsUTF8FirstByte) :
    decodeIgnore bytes = [] := by
  induction bytes with
  | nil => rfl
  | cons b rest ih =>
    have hnone := decodeChar?_of_not_first rest (h b List.mem_cons_self)
    simp only [decodeIgnore, decodeIgnoreFrom, hnone]
    exact ih fun b' hb' => h b' (List.mem_cons_of_mem _ hb')

/-- The start of a character is skipped. -/
theorem decodeIgnore_take (c : Char) {n : Nat} (h : n < c.utf8Size) :
    decodeIgnore ((String.utf8EncodeChar c).take n) = [] := by
  have hnone := decodeChar?_take c h
  cases htake : (String.utf8EncodeChar c).take n with
  | nil => rfl
  | cons b rest =>
    rw [htake] at hnone
    simp only [decodeIgnore, decodeIgnoreFrom, hnone]
    refine decodeIgnore_of_not_first fun b' hb' => not_first_of_mem_tail (c := c) ?_
    have hsplit := List.take_append_drop n (String.utf8EncodeChar c)
    rw [htake, List.cons_append] at hsplit
    rw [← hsplit, List.tail_cons]
    exact List.mem_append_left _ hb'

/-- **Cut at a byte and decoded, a text is its longest start that fits.** -/
theorem decodeIgnore_take_utf8 (limit : Nat) (text : List Char) :
    decodeIgnore ((utf8 text).take limit) = fit limit text := by
  induction text generalizing limit with
  | nil =>
    rw [utf8_nil, List.take_nil]
    rfl
  | cons c rest ih =>
    have hlen := String.length_utf8EncodeChar c
    rw [utf8_cons, fit]
    split
    · next hfits =>
      rw [List.take_append, List.take_of_length_le (by omega), hlen, decodeIgnore_append, ih]
    · next hfits =>
      rw [List.take_append_of_le_length (by omega)]
      exact decodeIgnore_take c (by omega)

/-! ## What `fit` keeps -/

theorem length_utf8_fit (limit : Nat) (text : List Char) :
    (utf8 (fit limit text)).length ≤ limit := by
  induction text generalizing limit with
  | nil => exact Nat.zero_le _
  | cons c rest ih =>
    rw [fit]
    split
    · have := ih (limit - c.utf8Size)
      rw [utf8_cons, List.length_append, String.length_utf8EncodeChar]
      omega
    · exact Nat.zero_le _

/-- A text that fits is kept whole. -/
theorem fit_of_le {limit : Nat} {text : List Char} (h : (utf8 text).length ≤ limit) :
    fit limit text = text := by
  induction text generalizing limit with
  | nil => rfl
  | cons c rest ih =>
    rw [utf8_cons, List.length_append, String.length_utf8EncodeChar] at h
    rw [fit, if_pos (by omega), ih (by omega)]

/-- **What is cut off starts with a character that does not fit.** -/
theorem fit_longest (limit : Nat) (text : List Char) :
    ∃ off, text = fit limit text ++ off ∧
      ∀ c ∈ off.head?, limit < (utf8 (fit limit text)).length + c.utf8Size := by
  induction text generalizing limit with
  | nil => exact ⟨[], rfl, by simp⟩
  | cons c rest ih =>
    rw [fit]
    split
    · next hfits =>
      obtain ⟨off, hoff, hnext⟩ := ih (limit - c.utf8Size)
      refine ⟨off, by rw [List.cons_append, ← hoff], ?_⟩
      intro c' hc'
      have := hnext c' hc'
      rw [utf8_cons, List.length_append, String.length_utf8EncodeChar]
      omega
    · next hfits =>
      refine ⟨c :: rest, rfl, ?_⟩
      intro c' hc'
      rw [List.head?_cons, Option.mem_some] at hc'
      rw [← hc', utf8_nil, List.length_nil]
      omega

/-- A character takes at most four bytes, so some of a text fits into that. -/
theorem fit_ne_nil {limit : Nat} {text : List Char} (hlimit : 4 ≤ limit) (h : text ≠ []) :
    fit limit text ≠ [] := by
  cases text with
  | nil => exact absurd rfl h
  | cons c rest =>
    have := c.utf8Size_le_four
    rw [fit, if_pos (by omega)]
    exact List.cons_ne_nil _ _

/-! ## Bytes that are a text -/

/-- The bytes are UTF-8. -/
def IsUtf8 (bytes : Bytes) : Prop := ∃ text, utf8 text = bytes

theorem isUtf8_utf8 (text : List Char) : IsUtf8 (utf8 text) := ⟨text, rfl⟩

theorem isUtf8_nil : IsUtf8 [] := isUtf8_utf8 []

theorem utf8_append (as bs : List Char) : utf8 (as ++ bs) = utf8 as ++ utf8 bs :=
  List.flatMap_append

theorem decode?_utf8_append (text : List Char) (rest : Bytes) :
    decode? (utf8 text ++ rest) = (decode? rest).map (text ++ ·) := by
  induction text with
  | nil => simp
  | cons c text ih =>
    rw [utf8_cons, List.append_assoc, decode?_append, ih]
    cases decode? rest <;> rfl

/-- After a text there must be another. -/
theorem isUtf8_append_iff {a b : Bytes} (ha : IsUtf8 a) : IsUtf8 (a ++ b) ↔ IsUtf8 b := by
  obtain ⟨as, rfl⟩ := ha
  constructor
  · rintro ⟨text, htext⟩
    have hdec := decode?_utf8_append as b
    rw [← htext, decode?_utf8, eq_comm, Option.map_eq_some_iff] at hdec
    obtain ⟨bs, -, rfl⟩ := hdec
    rw [utf8_append] at htext
    exact ⟨bs, List.append_cancel_left htext⟩
  · rintro ⟨bs, rfl⟩
    exact ⟨as ++ bs, utf8_append as bs⟩

theorem isUtf8_append {a b : Bytes} (ha : IsUtf8 a) (hb : IsUtf8 b) : IsUtf8 (a ++ b) :=
  (isUtf8_append_iff ha).mpr hb

theorem isUtf8_flatten {pieces : List Bytes} (h : ∀ piece ∈ pieces, IsUtf8 piece) :
    IsUtf8 pieces.flatten := by
  induction pieces with
  | nil => exact isUtf8_nil
  | cons piece rest ih =>
    rw [List.flatten_cons]
    exact isUtf8_append (h piece List.mem_cons_self)
      (ih fun other hother => h other (List.mem_cons_of_mem _ hother))

/-- An ASCII byte is a character by itself. -/
theorem utf8EncodeChar_ofNat {b : UInt8} (h : b < 128) :
    String.utf8EncodeChar (Char.ofNat b.toNat) = [b] ∧ b.IsUTF8FirstByte := by
  have hall : ∀ b : UInt8, b < 128 →
      String.utf8EncodeChar (Char.ofNat b.toNat) = [b] ∧ b.IsUTF8FirstByte :=
    forall_byte (by decide +kernel)
  exact hall b h

theorem isUtf8_of_ascii {bytes : Bytes} (h : ∀ b ∈ bytes, b < 128) : IsUtf8 bytes := by
  induction bytes with
  | nil => exact isUtf8_nil
  | cons b bytes ih =>
    have hb : IsUtf8 [b] :=
      ⟨[Char.ofNat b.toNat], by simp [(utf8EncodeChar_ofNat (h b List.mem_cons_self)).1]⟩
    exact (isUtf8_append_iff hb).mpr (ih fun b' hb' => h b' (List.mem_cons_of_mem _ hb'))

/-- A text that is written out is checked byte by byte. -/
theorem isUtf8_of_all {bytes : Bytes} (h : (bytes.all fun b => b < 128) = true) : IsUtf8 bytes :=
  isUtf8_of_ascii fun b hb => of_decide_eq_true (List.all_eq_true.mp h b hb)

theorem isUtf8_ascii {s : String} (h : ((ascii s).all fun b => b < 128) = true) :
    IsUtf8 (ascii s) := isUtf8_of_all h

/-- An ASCII byte is not inside of a character. -/
theorem isUtf8_append_cons_iff {a rest : Bytes} {b : UInt8} (hb : b < 128) :
    IsUtf8 (a ++ b :: rest) ↔ IsUtf8 a ∧ IsUtf8 rest := by
  obtain ⟨henc, hfirst⟩ := utf8EncodeChar_ofNat hb
  have hchar : IsUtf8 [b] := ⟨[Char.ofNat b.toNat], by rw [utf8_cons, utf8_nil, henc]; rfl⟩
  constructor
  · rintro ⟨text, htext⟩
    induction text generalizing a with
    | nil => simp at htext
    | cons c text ih =>
      rw [utf8_cons] at htext
      rcases List.append_eq_append_iff.mp htext with ⟨more, ha, hmore⟩ | ⟨more, hc, hmore⟩
      · -- the character stands in front of the byte
        obtain ⟨hutf8, hrest⟩ := ih hmore
        rw [ha]
        exact ⟨isUtf8_append ⟨[c], by simp⟩ hutf8, hrest⟩
      · cases a with
        | nil =>
          have hwhole : IsUtf8 ([b] ++ rest) := ⟨c :: text, htext⟩
          exact ⟨isUtf8_nil, (isUtf8_append_iff hchar).mp hwhole⟩
        | cons x a =>
          cases more with
          | nil =>
            rw [List.append_nil] at hc
            obtain ⟨-, hrest⟩ := ih (a := []) hmore.symm
            exact ⟨⟨[c], by rw [← hc]; simp⟩, hrest⟩
          | cons y more =>
            obtain ⟨rfl, -⟩ := List.cons.inj hmore
            refine absurd hfirst (not_first_of_mem_tail (c := c) ?_)
            rw [hc]
            simp
  · rintro ⟨ha, hrest⟩
    exact isUtf8_append ha ((isUtf8_append_iff hchar).mpr hrest)

theorem isUtf8_cons_iff {b : UInt8} {rest : Bytes} (hb : b < 128) :
    IsUtf8 (b :: rest) ↔ IsUtf8 rest := by
  have h : IsUtf8 ([] ++ b :: rest) ↔ IsUtf8 [] ∧ IsUtf8 rest := isUtf8_append_cons_iff hb
  rwa [List.nil_append, and_iff_right isUtf8_nil] at h

/-- Before an ASCII byte too. -/
theorem isUtf8_concat_iff {a : Bytes} {b : UInt8} (hb : b < 128) :
    IsUtf8 (a ++ [b]) ↔ IsUtf8 a := by
  rw [isUtf8_append_cons_iff hb, and_iff_left isUtf8_nil]

/-- The start of a character is no text. -/
theorem not_isUtf8_take {c : Char} {n : Nat} (hpos : 0 < n) (h : n < c.utf8Size) :
    ¬IsUtf8 ((String.utf8EncodeChar c).take n) := by
  rintro ⟨text, htext⟩
  have hnone := decodeChar?_take c h
  have hlen := congrArg List.length htext
  rw [List.length_take, String.length_utf8EncodeChar] at hlen
  cases text with
  | nil =>
    rw [utf8_nil, List.length_nil] at hlen
    omega
  | cons c' text =>
    rw [← htext, utf8_cons, decodeChar?_append] at hnone
    simp at hnone

/-- The bytes of a character that is not ASCII are not. -/
theorem le_of_mem_utf8EncodeChar {c : Char} (h : 128 ≤ c.toNat) {b : UInt8}
    (hb : b ∈ String.utf8EncodeChar c) : 128 ≤ b := by
  by_contra hlt
  obtain ⟨henc, hfirst⟩ := utf8EncodeChar_ofNat (UInt8.not_le.mp hlt)
  obtain ⟨b', tail, hc, -, -⟩ := utf8EncodeChar_eq_cons c
  rw [hc] at hb
  rcases List.mem_cons.mp hb with rfl | hb
  · -- then it would be the character
    have hdec := decodeChar?_append c []
    rw [hc, List.append_nil, ← List.singleton_append, ← henc, decodeChar?_append,
      Option.some.injEq] at hdec
    have hsame := congrArg Char.toNat hdec
    have hval : ∀ b : UInt8, b < 128 → (Char.ofNat b.toNat).toNat < 128 :=
      forall_byte (by decide +kernel)
    have := hval b (UInt8.not_le.mp hlt)
    omega
  · refine not_first_of_mem_tail (c := c) ?_ hfirst
    rw [hc]
    exact hb

/-- A byte that continues a character says so. -/
theorem continuation_of_mem_tail {c : Char} {b : UInt8}
    (h : b ∈ (String.utf8EncodeChar c).tail) : b &&& 0xC0 = 0x80 := by
  have hmask : ∀ x : UInt8, (x &&& 0x3f ||| 0x80) &&& 0xC0 = 0x80 := forall_byte (by decide +kernel)
  have hpos := c.utf8Size_pos
  have hle := c.utf8Size_le_four
  have hsizes : c.utf8Size = 1 ∨ c.utf8Size = 2 ∨ c.utf8Size = 3 ∨ c.utf8Size = 4 := by omega
  rcases hsizes with hsize | hsize | hsize | hsize
  · rw [String.utf8EncodeChar_eq_singleton hsize, List.tail_cons] at h
    simp at h
  · rw [String.utf8EncodeChar_eq_cons_cons hsize, List.tail_cons, List.mem_singleton] at h
    rw [h, hmask]
  · rw [String.utf8EncodeChar_eq_cons_cons_cons hsize, List.tail_cons] at h
    simp only [List.mem_cons, List.not_mem_nil, or_false] at h
    rcases h with rfl | rfl <;> exact hmask _
  · rw [String.utf8EncodeChar_eq_cons_cons_cons_cons hsize, List.tail_cons] at h
    simp only [List.mem_cons, List.not_mem_nil, or_false] at h
    rcases h with rfl | rfl | rfl <;> exact hmask _

theorem not_continuation_of_first {b : UInt8} (h : b.IsUTF8FirstByte) : b &&& 0xC0 ≠ 0x80 := by
  have hall : ∀ b : UInt8, b.IsUTF8FirstByte → b &&& 0xC0 ≠ 0x80 :=
    forall_byte (by decide +kernel)
  exact hall b h

/-- **A text may be cut where a character starts, and nowhere else.** -/
theorem isUtf8_take_iff {bytes : Bytes} (h : IsUtf8 bytes) {n : Nat} (hn : n < bytes.length) :
    IsUtf8 (bytes.take n) ↔ bytes[n] &&& 0xC0 ≠ 0x80 := by
  obtain ⟨text, rfl⟩ := h
  induction text generalizing n with
  | nil => simp at hn
  | cons c rest ih =>
    obtain ⟨b, tail, henc, hfirst, htail⟩ := utf8EncodeChar_eq_cons c
    have hpos := c.utf8Size_pos
    have hlen := String.length_utf8EncodeChar c
    rcases Nat.lt_or_ge n c.utf8Size with hin | hout
    · simp only [utf8_cons]
      rw [List.take_append_of_le_length (by omega), List.getElem_append_left (by omega)]
      cases n with
      | zero =>
        simp only [henc, List.take_zero, List.getElem_cons_zero]
        exact iff_of_true isUtf8_nil (not_continuation_of_first hfirst)
      | succ n =>
        refine iff_of_false (not_isUtf8_take (Nat.succ_pos n) hin) (not_not_intro ?_)
        refine continuation_of_mem_tail (c := c) ?_
        simp only [henc, List.getElem_cons_succ, List.tail_cons]
        exact List.getElem_mem _
    · have hrest : n - c.utf8Size < (utf8 rest).length := by
        rw [utf8_cons, List.length_append] at hn
        omega
      simp only [utf8_cons]
      rw [List.take_append, List.take_of_length_le (by omega), List.getElem_append_right (by omega),
        isUtf8_append_iff ⟨[c], by simp⟩]
      simp only [hlen]
      exact ih hrest

/-- What is decoded is what was encoded. -/
theorem utf8_of_decode? {bytes : Bytes} {text : List Char} (h : decode? bytes = some text) :
    utf8 text = bytes := by
  induction text generalizing bytes with
  | nil =>
    cases bytes with
    | nil => rfl
    | cons b rest =>
      rw [decode?, decodeFrom?] at h
      split at h
      · cases h
      · simp at h
  | cons c text ih =>
    cases bytes with
    | nil => cases h
    | cons b rest =>
      cases hdec : decodeChar? (b :: rest) with
      | none =>
        rw [decode?, decodeFrom?, hdec] at h
        cases h
      | some c' =>
        obtain ⟨more, hmore⟩ := decodeChar?_eq_some hdec
        rw [hmore, decode?_append, Option.map_eq_some_iff] at h
        obtain ⟨text', htext', heq⟩ := h
        obtain ⟨rfl, rfl⟩ := List.cons.inj heq
        rw [hmore, utf8_cons, ih htext']

/-- **The bytes are UTF-8 when they can be decoded**, and only then. -/
theorem isSome_decode?_iff {bytes : Bytes} : (decode? bytes).isSome ↔ IsUtf8 bytes := by
  constructor
  · intro h
    obtain ⟨text, htext⟩ := Option.isSome_iff_exists.mp h
    exact ⟨text, utf8_of_decode? htext⟩
  · rintro ⟨text, rfl⟩
    rw [decode?_utf8]
    rfl

instance (bytes : Bytes) : Decidable (IsUtf8 bytes) := decidable_of_iff _ isSome_decode?_iff

theorem utf8_eq_nil_iff {text : List Char} : utf8 text = [] ↔ text = [] := by
  constructor
  · intro h
    have hdec := decode?_utf8 text
    rw [h] at hdec
    cases hdec
    rfl
  · rintro rfl
    rfl

end NetScanner.Infra
