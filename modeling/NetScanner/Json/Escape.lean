import NetScanner.Infra.JsonString

/-!
# Text in the JSON output

`src/core/utils.zig`, `jsonEscape` and `jsonStringOrNull`: a name that came off the network or out
of a file is escaped byte by byte into a buffer, and cut where the next piece does not fit.

The cut is between two bytes of the name (`jsonEscape_cut`), so what was written is read back as a
part of it (`jsonEscape_clean`).
-/

namespace NetScanner.Json

open Infra JsonString

def hex (n : UInt8) : UInt8 := (ascii "0123456789abcdef").getD n.toNat 0

/-- What stands for a byte. -/
def piece (c : UInt8) : Bytes :=
  if c = 34 then ascii "\\\""
  else if c = 92 then ascii "\\\\"
  else if c = 10 then ascii "\\n"
  else if c = 13 then ascii "\\r"
  else if c = 9 then ascii "\\t"
  else if c ≤ 8 ∨ c = 11 ∨ c = 12 ∨ 14 ≤ c ∧ c ≤ 0x1f ∨ c = 0x7f then
    ascii "\\u00" ++ [hex (c >>> 4), hex (c &&& 0xf)]
  else [c]

/-- The loop of `jsonEscape`, over a buffer of `size` bytes that holds `written` so far. -/
def escapeInto (size : Nat) (written : Bytes) : Bytes → Bytes
  | [] => written
  | c :: rest =>
    if written.length + (piece c).length > size then written
    else escapeInto size (written ++ piece c) rest

def jsonEscape (size : Nat) (s : Bytes) : Bytes := escapeInto size [] s

/-- Without room for its quotes, a text is left out. -/
def jsonStringOrNull (size : Nat) : Option Bytes → Bytes
  | none => ascii "null"
  | some value =>
    if size < 2 then ascii "null" else 34 :: (jsonEscape (size - 2) value ++ [34])

/-! ## The pieces -/

/-- A byte stands for itself, or has an escape of two bytes, or one of four hex digits. -/
theorem piece_cases (c : UInt8) :
    (piece c = [c] ∧ 32 ≤ c ∧ c ≠ 34 ∧ c ≠ 92) ∨
    (∃ e, piece c = [92, e] ∧ shortEscape? e = some c) ∨
    (∃ hi lo, piece c = [92, 117, 48, 48, hi, lo] ∧ codeUnit? [48, 48, hi, lo] = some c.toNat ∧
      String.utf8EncodeChar (Char.ofNat c.toNat) = [c]) := by
  have hall : ∀ c : UInt8,
      (piece c = [c] ∧ 32 ≤ c ∧ c ≠ 34 ∧ c ≠ 92) ∨
      (piece c = [92, (piece c).getD 1 0] ∧ shortEscape? ((piece c).getD 1 0) = some c) ∨
      (piece c = [92, 117, 48, 48, hex (c >>> 4), hex (c &&& 0xf)] ∧
        codeUnit? [48, 48, hex (c >>> 4), hex (c &&& 0xf)] = some c.toNat ∧
        String.utf8EncodeChar (Char.ofNat c.toNat) = [c]) :=
    forall_byte (by decide +kernel)
  rcases hall c with h | h | h
  · exact Or.inl h
  · exact Or.inr (Or.inl ⟨_, h⟩)
  · exact Or.inr (Or.inr ⟨_, _, h⟩)

/-- **Each piece stands for its byte**, whatever follows. -/
theorem piece?_piece (c : UInt8) (rest : Bytes) :
    piece? (piece c ++ rest) = some ([c], (piece c).length) := by
  rcases piece_cases c with ⟨h, hlt, hquote, hslash⟩ | ⟨e, h, hshort⟩ | ⟨hi, lo, h, hunit, hchar⟩
  · rw [h]
    exact piece?_plain hlt hquote hslash rest
  · rw [h]
    exact piece?_short hshort rest
  · have hscalar : c.toNat < 0xD800 := Nat.lt_trans c.toNat_lt (by decide)
    have hunicode := piece?_unicode hunit hscalar rest
    rw [hchar] at hunicode
    rw [h]
    exact hunicode

/-- A piece has no control byte. -/
theorem piece_printable (c : UInt8) : piece c ≠ [] ∧ ∀ b ∈ piece c, 32 ≤ b ∧ b ≠ 0x7f := by
  have hall : ∀ c : UInt8, piece c ≠ [] ∧ (piece c).all (fun b => 32 ≤ b ∧ b ≠ 0x7f) = true :=
    forall_byte (by decide +kernel)
  obtain ⟨hne, hbytes⟩ := hall c
  exact ⟨hne, fun b hb => of_decide_eq_true (List.all_eq_true.mp hbytes b hb)⟩

/-- What is no control byte has a piece of at most two bytes. -/
theorem length_piece_le {c : UInt8} (h : 32 ≤ c ∧ c ≠ 0x7f) : (piece c).length ≤ 2 := by
  have hall : ∀ c : UInt8, 32 ≤ c ∧ c ≠ 0x7f → (piece c).length ≤ 2 :=
    forall_byte (by decide +kernel)
  exact hall c h

/-! ## The cut -/

theorem escapeInto_cut (size : Nat) (s written : Bytes) :
    ∃ p rest, s = p ++ rest ∧ escapeInto size written s = written ++ p.flatMap piece ∧
      (written.length ≤ size → (escapeInto size written s).length ≤ size) ∧
      ∀ c ∈ rest.head?, size < (escapeInto size written s).length + (piece c).length := by
  induction s generalizing written with
  | nil => exact ⟨[], [], rfl, by simp [escapeInto], id, by simp⟩
  | cons c s ih =>
    rw [escapeInto]
    split
    · next hfull => exact ⟨[], c :: s, rfl, by simp, id, by simpa using hfull⟩
    · next hfits =>
      obtain ⟨p, rest, hs, hout, hlen, hnext⟩ := ih (written ++ piece c)
      refine ⟨c :: p, rest, by rw [hs]; rfl, ?_, fun _ => hlen ?_, hnext⟩
      · rw [hout, List.flatMap_cons, List.append_assoc]
      · rw [List.length_append]
        omega

/-- **The output is the pieces of the first bytes of `s`**, as far as the next one fits. -/
theorem jsonEscape_cut (size : Nat) (s : Bytes) :
    ∃ p rest, s = p ++ rest ∧ jsonEscape size s = p.flatMap piece ∧
      (jsonEscape size s).length ≤ size ∧
      ∀ c ∈ rest.head?, size < (jsonEscape size s).length + (piece c).length := by
  obtain ⟨p, rest, hs, hout, hlen, hnext⟩ := escapeInto_cut size s []
  exact ⟨p, rest, hs, hout, hlen (Nat.zero_le _), hnext⟩

/-- What `out` is to be, for a text `s` and room for `size` bytes. -/
structure CleanCut (size : Nat) (s out : Bytes) : Prop where
  length_le : out.length ≤ size
  printable : ∀ b ∈ out, 0x20 ≤ b ∧ b ≠ 0x7f
  /-- Between quotes it is read back as the start of `s`, up to a byte whose piece does not
  fit. -/
  readBack : ∃ p rest, s = p ++ rest ∧
    (∀ after, string? (34 :: (out ++ 34 :: after)) = some (p, after)) ∧
    ∀ c ∈ rest.head?, size < out.length + (piece c).length

theorem jsonEscape_cleanCut (size : Nat) (s : Bytes) : CleanCut size s (jsonEscape size s) := by
  obtain ⟨p, rest, hs, hout, hlen, hnext⟩ := jsonEscape_cut size s
  refine ⟨hlen, fun b hb => ?_, p, rest, hs, fun after => ?_, hnext⟩
  · rw [hout, List.mem_flatMap] at hb
    obtain ⟨c, _, hc⟩ := hb
    exact (piece_printable c).2 b hc
  · rw [hout]
    exact string?_flatMap (fun c => (piece_printable c).1) piece?_piece p after

/--
**Escaping is undone by unescaping, and the cut is clean**, for every byte string and every
buffer; with two bytes more there is room for the quotes.
-/
theorem jsonEscape_clean (size : Nat) (s : Bytes) :
    CleanCut size s (jsonEscape size s) ∧
      ∃ body, jsonStringOrNull (size + 2) (some s) = 34 :: (body ++ [34]) ∧
        CleanCut size s body := by
  refine ⟨jsonEscape_cleanCut size s, jsonEscape size s, ?_, jsonEscape_cleanCut size s⟩
  rw [jsonStringOrNull, if_neg (by omega), Nat.add_sub_cancel]

end NetScanner.Json
