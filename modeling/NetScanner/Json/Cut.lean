import NetScanner.Json.Escape

/-!
# Where the cut of `jsonEscape` falls

`src/core/utils.zig`, `jsonEscape`: a character of several bytes is several pieces of one byte,
copied one after the other as long as they fit. A text that is too long may so lose the last
bytes of a character and keep the first, and then the output is not UTF-8.

`cutsBetween` says where the cut falls: an ASCII character is one piece, which is in or out, so
only a longer one can be torn, and it is unless no byte of it fits (`isUtf8_jsonEscape_iff`).
-/

namespace NetScanner.Json

open Infra JsonString

/-- The room a character takes. -/
def escapedSize (c : Char) : Nat := ((String.utf8EncodeChar c).flatMap piece).length

/-- Whether a text cut to `size` bytes is cut between two characters: the first that does not fit
is ASCII, or the buffer is full before it. -/
def cutsBetween (size : Nat) : List Char → Bool
  | [] => true
  | c :: rest =>
    if escapedSize c ≤ size then cutsBetween (size - escapedSize c) rest
    else decide (c.toNat < 128) || decide (size = 0)

/-! ## Character by character -/

theorem escapeInto_eq (size : Nat) (s written : Bytes) (h : written.length ≤ size) :
    escapeInto size written s = written ++ jsonEscape (size - written.length) s := by
  induction s generalizing written size with
  | nil => simp [jsonEscape, escapeInto]
  | cons c s ih =>
    rw [jsonEscape, escapeInto, escapeInto]
    by_cases hfull : written.length + (piece c).length > size
    · rw [if_pos hfull, if_pos (by simp only [List.length_nil]; omega), List.append_nil]
    · rw [if_neg hfull, if_neg (by simp only [List.length_nil]; omega),
        ih size (written ++ piece c) (by rw [List.length_append]; omega),
        ih (size - written.length) ([] ++ piece c) (by simp only [List.nil_append]; omega),
        List.length_append, List.nil_append, List.append_assoc, Nat.sub_sub]

theorem jsonEscape_nil (size : Nat) : jsonEscape size [] = [] := rfl

theorem jsonEscape_cons (size : Nat) (c : UInt8) (s : Bytes) :
    jsonEscape size (c :: s) =
      if (piece c).length ≤ size then piece c ++ jsonEscape (size - (piece c).length) s
      else [] := by
  rw [jsonEscape, escapeInto, List.length_nil, Nat.zero_add]
  by_cases hfits : (piece c).length ≤ size
  · rw [if_neg (by omega), if_pos hfits, List.nil_append, escapeInto_eq _ _ _ hfits]
  · rw [if_pos (by omega), if_neg hfits]

/-- What fits is written whole. -/
theorem jsonEscape_append {a : Bytes} {size : Nat} (h : (a.flatMap piece).length ≤ size)
    (s : Bytes) : jsonEscape size (a ++ s) =
      a.flatMap piece ++ jsonEscape (size - (a.flatMap piece).length) s := by
  induction a generalizing size with
  | nil => rfl
  | cons c a ih =>
    rw [List.flatMap_cons, List.length_append] at h ⊢
    rw [List.cons_append, jsonEscape_cons, if_pos (by omega), ih (by omega), List.append_assoc,
      Nat.sub_sub]

/-- A byte that is not ASCII stands for itself. -/
theorem piece_of_le {b : UInt8} (h : 128 ≤ b) : piece b = [b] := by
  have hall : ∀ b : UInt8, 128 ≤ b → piece b = [b] := forall_byte (by decide +kernel)
  exact hall b h

theorem piece_ascii {b : UInt8} (h : b < 128) : ∀ x ∈ piece b, x < 128 := by
  have hall : ∀ b : UInt8, b < 128 → (piece b).all (fun x => x < 128) = true :=
    forall_byte (by decide +kernel)
  exact fun x hx => of_decide_eq_true (List.all_eq_true.mp (hall b h) x hx)

/-- Bytes that stand for themselves are copied as far as they fit. -/
theorem jsonEscape_take {a : Bytes} (ha : ∀ b ∈ a, 128 ≤ b) {size : Nat} (h : size < a.length)
    (s : Bytes) : jsonEscape size (a ++ s) = a.take size := by
  induction a generalizing size with
  | nil => simp at h
  | cons b a ih =>
    rw [List.cons_append, jsonEscape_cons, piece_of_le (ha b List.mem_cons_self)]
    cases size with
    | zero => rfl
    | succ size =>
      rw [List.length_singleton, if_pos (by omega), Nat.add_sub_cancel, List.take_succ_cons,
        ih (fun b' hb' => ha b' (List.mem_cons_of_mem _ hb')) (by simpa using h)]
      rfl

theorem flatMap_piece_of_le {a : Bytes} (ha : ∀ b ∈ a, 128 ≤ b) : a.flatMap piece = a := by
  induction a with
  | nil => rfl
  | cons b a ih =>
    rw [List.flatMap_cons, piece_of_le (ha b List.mem_cons_self),
      ih fun b' hb' => ha b' (List.mem_cons_of_mem _ hb')]
    rfl

/-- The bytes of an ASCII character. -/
theorem utf8EncodeChar_ascii {c : Char} (h : c.toNat < 128) :
    ∃ b : UInt8, b < 128 ∧ String.utf8EncodeChar c = [b] := by
  have hb : UInt8.ofNat c.toNat < 128 := by
    rw [UInt8.lt_iff_toNat_lt, UInt8.toNat_ofNat']
    exact Nat.lt_of_le_of_lt (Nat.mod_le _ _) h
  have henc := (utf8EncodeChar_ofNat hb).1
  rw [UInt8.toNat_ofNat', Nat.mod_eq_of_lt (by omega), Char.ofNat_toNat] at henc
  exact ⟨_, hb, henc⟩

/-- The pieces of a character are a text. -/
theorem isUtf8_pieces (c : Char) : IsUtf8 ((String.utf8EncodeChar c).flatMap piece) := by
  by_cases hascii : c.toNat < 128
  · obtain ⟨b, hb, henc⟩ := utf8EncodeChar_ascii hascii
    rw [henc, List.flatMap_singleton]
    exact isUtf8_of_ascii (piece_ascii hb)
  · rw [flatMap_piece_of_le fun b hb => le_of_mem_utf8EncodeChar (by omega) hb]
    exact ⟨[c], by simp⟩

/-- What is not ASCII stands in the output as it stands in the text. -/
theorem exists_of_flatMap_piece {a s rest : Bytes} (ha : ∀ b ∈ a, 128 ≤ b)
    (h : s.flatMap piece = a ++ rest) : ∃ more, s = a ++ more ∧ rest = more.flatMap piece := by
  induction a generalizing s with
  | nil => exact ⟨s, rfl, h.symm⟩
  | cons b a ih =>
    obtain ⟨hb, htail⟩ := List.forall_mem_cons.mp ha
    cases s with
    | nil => cases h
    | cons c s =>
      rw [List.flatMap_cons] at h
      by_cases hc : c < 128
      · have hfirst : ∀ x ∈ (piece c ++ s.flatMap piece).head?, x < 128 := by
          intro x hx
          rw [List.head?_append_of_ne_nil _ (piece_printable c).1] at hx
          exact piece_ascii hc x (List.mem_of_mem_head? hx)
        rw [h] at hfirst
        exact absurd (hfirst b rfl) (UInt8.not_lt.mpr hb)
      · rw [piece_of_le (UInt8.not_lt.mp hc)] at h
        obtain ⟨rfl, hsame⟩ := List.cons.inj h
        obtain ⟨more, rfl, hrest⟩ := ih htail hsame
        exact ⟨more, rfl, hrest⟩

/-- **Escaped piece by piece, bytes are UTF-8 exactly when they were.** -/
theorem isUtf8_flatMap_piece_iff (s : Bytes) : IsUtf8 (s.flatMap piece) ↔ IsUtf8 s := by
  constructor
  · intro h
    induction hlen : s.length using Nat.strong_induction_on generalizing s with
    | h n ih =>
      cases s with
      | nil => exact isUtf8_nil
      | cons b s =>
        rw [List.length_cons] at hlen
        rw [List.flatMap_cons] at h
        by_cases hb : b < 128
        · rw [isUtf8_append_iff (isUtf8_of_ascii (piece_ascii hb))] at h
          rw [isUtf8_cons_iff hb]
          exact ih _ (by omega) s h rfl
        · -- the byte begins a character, and the rest of it comes next
          obtain ⟨text, htext⟩ := h
          rw [piece_of_le (UInt8.not_lt.mp hb)] at htext
          cases text with
          | nil => cases htext
          | cons c text =>
            obtain ⟨b', tail, henc, -, -⟩ := utf8EncodeChar_eq_cons c
            rw [utf8_cons, henc] at htext
            obtain ⟨rfl, hrest⟩ := List.cons.inj htext
            have hwide : 128 ≤ c.toNat := by
              by_contra hlt
              obtain ⟨b, hascii, hb'⟩ := utf8EncodeChar_ascii (Nat.not_le.mp hlt)
              rw [henc] at hb'
              rw [(List.cons.inj hb').1] at hb
              exact hb hascii
            have htail : ∀ b ∈ tail, 128 ≤ b := fun b hmem =>
              le_of_mem_utf8EncodeChar hwide (by rw [henc]; exact List.mem_cons_of_mem _ hmem)
            obtain ⟨more, rfl, hmore⟩ := exists_of_flatMap_piece htail hrest.symm
            have hutf8 := ih more.length (by rw [List.length_append] at hlen; omega) more
              ⟨text, hmore⟩ rfl
            rw [← List.cons_append, ← henc]
            exact isUtf8_append ⟨[c], by simp⟩ hutf8
  · rintro ⟨text, rfl⟩
    induction text with
    | nil => exact isUtf8_nil
    | cons c text ih =>
      rw [utf8_cons, List.flatMap_append]
      exact isUtf8_append (isUtf8_pieces c) ih

/-! ## The cut -/

/-- **The output is UTF-8 exactly where the cut is between characters.** -/
theorem isUtf8_jsonEscape_iff (size : Nat) (text : List Char) :
    IsUtf8 (jsonEscape size (utf8 text)) ↔ cutsBetween size text = true := by
  induction text generalizing size with
  | nil =>
    rw [utf8_nil, jsonEscape_nil]
    exact iff_of_true isUtf8_nil rfl
  | cons c text ih =>
    rw [utf8_cons, cutsBetween]
    split
    · next hfits => rw [jsonEscape_append hfits, isUtf8_append_iff (isUtf8_pieces c), ih]; rfl
    · next hfull =>
      rw [escapedSize] at hfull
      by_cases hascii : c.toNat < 128
      · obtain ⟨b, hb, henc⟩ := utf8EncodeChar_ascii hascii
        rw [henc, List.flatMap_singleton] at hfull
        rw [henc, List.singleton_append, jsonEscape_cons, if_neg hfull, decide_eq_true hascii]
        exact iff_of_true isUtf8_nil rfl
      · have hbytes : ∀ b ∈ String.utf8EncodeChar c, 128 ≤ b :=
          fun b hb => le_of_mem_utf8EncodeChar (by omega) hb
        rw [flatMap_piece_of_le hbytes] at hfull
        rw [jsonEscape_take hbytes (by omega), decide_eq_false hascii, Bool.false_or,
          decide_eq_true_eq]
        constructor
        · intro hvalid
          by_contra hne
          rw [String.length_utf8EncodeChar] at hfull
          exact not_isUtf8_take (by omega) (by omega) hvalid
        · rintro rfl
          exact isUtf8_nil

theorem isUtf8_jsonStringOrNull_iff (size : Nat) (text : List Char) :
    IsUtf8 (jsonStringOrNull size (some (utf8 text))) ↔
      size < 2 ∨ cutsBetween (size - 2) text = true := by
  rw [jsonStringOrNull]
  split
  · next hsmall =>
    exact iff_of_true (isUtf8_of_ascii (by decide +kernel)) (Or.inl hsmall)
  · next hroom =>
    rw [← List.cons_append, isUtf8_concat_iff (by decide), ← List.singleton_append,
      isUtf8_append_iff (isUtf8_of_ascii (by decide +kernel)), isUtf8_jsonEscape_iff]
    simp [hroom]

/--
**A JSON line stays UTF-8 exactly where no character is torn**: every character of the text fits,
or the first that does not is ASCII, or the buffer is full before it.
-/
theorem json_utf8_iff (size : Nat) (text : List Char) :
    (IsUtf8 (jsonEscape size (utf8 text)) ↔ cutsBetween size text = true) ∧
      (IsUtf8 (jsonStringOrNull size (some (utf8 text))) ↔
        size < 2 ∨ cutsBetween (size - 2) text = true) :=
  ⟨isUtf8_jsonEscape_iff size text, isUtf8_jsonStringOrNull_iff size text⟩

/-- The name of a vendor in the 768 bytes it gets, one byte short of its last letter. -/
theorem json_not_utf8_vendor :
    let vendor := List.replicate 767 'a' ++ ['é']
    jsonEscape 768 (utf8 vendor) = List.replicate 767 97 ++ [0xC3] ∧
      ¬IsUtf8 (jsonEscape 768 (utf8 vendor)) ∧
      ¬IsUtf8 (jsonStringOrNull 770 (some (utf8 vendor))) := by
  intro vendor
  refine ⟨by decide +kernel, ?_, ?_⟩
  · rw [isUtf8_jsonEscape_iff]
    decide +kernel
  · rw [isUtf8_jsonStringOrNull_iff]
    decide +kernel

end NetScanner.Json
