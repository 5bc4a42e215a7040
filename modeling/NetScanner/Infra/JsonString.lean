import NetScanner.Infra.Text
import NetScanner.Infra.Utf8

/-!
# JSON strings

What stands between the quotes of a JSON string, as bytes: a sequence of pieces, each a byte that
stands for itself or an escape (`piece?`). `string?` reads a string from its opening quote to its
closing one, and refuses control bytes and broken escapes.

An escaper that writes one piece for every byte is undone by it, whatever follows the closing
quote (`string?_flatMap`).
-/

namespace NetScanner.Infra.JsonString

/-- What a two-byte escape stands for. -/
def shortEscape? (b : UInt8) : Option UInt8 :=
  if b = 34 ∨ b = 92 ∨ b = 47 then some b
  else if b = 98 then some 8
  else if b = 102 then some 12
  else if b = 110 then some 10
  else if b = 114 then some 13
  else if b = 116 then some 9
  else none

/-- The code unit of four hex digits. -/
def codeUnit? : Bytes → Option Nat
  | a :: b :: c :: d :: _ =>
    match hexDigit a, hexDigit b, hexDigit c, hexDigit d with
    | some a, some b, some c, some d => some (((a * 16 + b) * 16 + c) * 16 + d)
    | _, _, _, _ => none
  | _ => none

/-- The low half of a surrogate pair, after the digits of the high half. -/
def lowSurrogate? : Bytes → Option Nat
  | 92 :: 117 :: rest =>
    match codeUnit? rest with
    | none => none
    | some low => if 0xDC00 ≤ low ∧ low < 0xE000 then some (low - 0xDC00) else none
  | _ => none

/-- What the digits after `\u` stand for, and the length of the escape. -/
def unicodeEscape? (digits : Bytes) : Option (Bytes × Nat) :=
  match codeUnit? digits with
  | none => none
  | some unit =>
    if unit < 0xD800 ∨ 0xE000 ≤ unit then some (String.utf8EncodeChar (Char.ofNat unit), 6)
    else if unit < 0xDC00 then
      match lowSurrogate? (digits.drop 4) with
      | none => none
      | some low =>
        some (String.utf8EncodeChar (Char.ofNat (0x10000 + (unit - 0xD800) * 0x400 + low)), 12)
    else none

/-- What the first piece of a body stands for, and its length. -/
def piece? : Bytes → Option (Bytes × Nat)
  | [] => none
  | b :: rest =>
    if b = 92 then
      match rest with
      | [] => none
      | e :: rest =>
        match shortEscape? e with
        | some value => some ([value], 2)
        | none => if e = 117 then unicodeEscape? rest else none
    else if b < 32 ∨ b = 34 then none
    else some ([b], 1)

/-- The string up to its closing quote, and what follows it. The first `skip` bytes belong to the
piece before. -/
def stringFrom? : Nat → Bytes → Option (Bytes × Bytes)
  | _, [] => none
  | skip + 1, _ :: rest => stringFrom? skip rest
  | 0, b :: rest =>
    if b = 34 then some ([], rest)
    else
      match piece? (b :: rest) with
      | none => none
      | some (value, length) =>
        (stringFrom? (length - 1) rest).map fun (more, rest) => (value ++ more, rest)

/-- The string the bytes start with, and what follows it. -/
def string? : Bytes → Option (Bytes × Bytes)
  | 34 :: rest => stringFrom? 0 rest
  | _ => none

/-! ## Piece by piece -/

theorem stringFrom?_skip (a rest : Bytes) :
    stringFrom? a.length (a ++ rest) = stringFrom? 0 rest := by
  induction a with
  | nil => rfl
  | cons b a ih =>
    rw [List.length_cons, List.cons_append, stringFrom?]
    exact ih

/-- A whole piece is read as what it stands for. -/
theorem stringFrom?_append {piece rest value : Bytes}
    (h : piece? (piece ++ rest) = some (value, piece.length)) (hne : piece ≠ []) :
    stringFrom? 0 (piece ++ rest) =
      (stringFrom? 0 rest).map fun (more, rest) => (value ++ more, rest) := by
  cases piece with
  | nil => exact absurd rfl hne
  | cons b tail =>
    rw [List.cons_append] at h ⊢
    have hquote : b ≠ 34 := by
      rintro rfl
      simp [piece?] at h
    rw [stringFrom?, if_neg hquote, h, List.length_cons]
    simp only [Nat.add_sub_cancel, stringFrom?_skip]

/-- **An escaper that writes one piece for each byte is undone.** -/
theorem string?_flatMap {escape : UInt8 → Bytes} (hne : ∀ b, escape b ≠ [])
    (hpiece : ∀ b rest, piece? (escape b ++ rest) = some ([b], (escape b).length))
    (s rest : Bytes) : string? (34 :: (s.flatMap escape ++ 34 :: rest)) = some (s, rest) := by
  show stringFrom? 0 _ = _
  induction s with
  | nil => rfl
  | cons b s ih =>
    rw [List.flatMap_cons, List.append_assoc, stringFrom?_append (hpiece b _) (hne b), ih]
    rfl

/-- A byte that stands for itself. -/
theorem piece?_plain {b : UInt8} (hlt : 32 ≤ b) (hquote : b ≠ 34) (hslash : b ≠ 92)
    (rest : Bytes) : piece? (b :: rest) = some ([b], 1) := by
  have hnot : ¬(b < 32 ∨ b = 34) := by
    rintro (h | h)
    · exact absurd hlt (UInt8.not_le.mpr h)
    · exact hquote h
  simp only [piece?, hslash, hnot, if_false]

theorem piece?_short {e value : UInt8} (h : shortEscape? e = some value) (rest : Bytes) :
    piece? (92 :: e :: rest) = some ([value], 2) := by
  simp only [piece?, if_true, h]

/-- An escape of four digits that are those of a character. -/
theorem piece?_unicode {a b c d : UInt8} {unit : Nat} (hunit : codeUnit? [a, b, c, d] = some unit)
    (hscalar : unit < 0xD800) (rest : Bytes) :
    piece? (92 :: 117 :: a :: b :: c :: d :: rest) =
      some (String.utf8EncodeChar (Char.ofNat unit), 6) := by
  have hunit' : codeUnit? (a :: b :: c :: d :: rest) = some unit := hunit
  have hshort : shortEscape? 117 = none := by decide
  simp only [piece?, hshort, if_true, unicodeEscape?, hunit']
  rw [if_pos (Or.inl hscalar)]

end NetScanner.Infra.JsonString
