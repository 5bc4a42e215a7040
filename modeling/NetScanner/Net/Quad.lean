import NetScanner.Net.Address
import NetScanner.Infra.Checked
import NetScanner.Infra.Numerals

/-!
# Dotted quads

`src/core/utils.zig`, `ipStringToBytes` once more, with its own variables: an octet in eight
bits, an array of four and an index into it. `Reader.Ready` says what the variables stand for,
and under it no step traps (`Machine.ipLoop_eq`). What is accepted is a list of octets with
dots between them (`DottedQuad`): the invariant of that direction is the run of digits the
current octet was read from.
-/

namespace NetScanner.Net

open Infra

/-- The text ends with fewer or more than three octets before the last. -/
theorem readOctets_nil_of_ne {done : List UInt8} (h : done.length ≠ 3) (byte : Nat)
    (hasDigits : Bool) : readOctets done byte hasDigits [] = none := by
  rcases done with _ | ⟨a, _ | ⟨b, _ | ⟨c, _ | ⟨d, done⟩⟩⟩⟩ <;> first | rfl | simp at h

/-! ## The variables -/

namespace Machine

/-- The variables of `ipStringToBytes`. -/
structure Reader where
  ipBytes : Bytes
  byte : Nat
  byteIndex : Nat
  hasDigits : Bool

/-- `[4]u8` as an address. -/
def ipOf : Bytes → Checked Ip
  | [a, b, c, d] => some (a, b, c, d)
  | _ => none

/-- The loop of `ipStringToBytes`, and what follows it. -/
def ipLoop (r : Reader) : Bytes → Checked (Option Ip)
  | [] =>
    if r.byteIndex ≠ 3 ∨ r.hasDigits = false then some none
    else do
      let ipBytes ← Checked.set r.ipBytes r.byteIndex (UInt8.ofNat r.byte)
      let ip ← ipOf ipBytes
      some (some ip)
  | char :: rest =>
    if char = 46 then
      if r.byteIndex ≥ 4 ∨ r.hasDigits = false then some none
      else do
        let ipBytes ← Checked.set r.ipBytes r.byteIndex (UInt8.ofNat r.byte)
        let byteIndex ← Checked.add 8 r.byteIndex 1
        ipLoop { ipBytes, byte := 0, byteIndex, hasDigits := false } rest
    else if char < 48 ∨ char > 57 then some none
    else do
      let digit ← Checked.sub char.toNat 48
      let left ← Checked.sub 255 digit
      let most ← Checked.div left 10
      if r.byte > most then some none
      else do
        let tens ← Checked.mul 8 r.byte 10
        let byte ← Checked.add 8 tens digit
        ipLoop { r with byte, hasDigits := true } rest

/-- `ipStringToBytes`, whatever the array holds before it is written. -/
def ipStringToBytes (undefinedBytes : Vector UInt8 4) (ipString : Bytes) : Checked (Option Ip) :=
  ipLoop
    { ipBytes := undefinedBytes.toList, byte := 0, byteIndex := 0, hasDigits := false } ipString

/-- The variables stand for the octets in `done`. -/
structure Reader.Ready (r : Reader) (done : Bytes) : Prop where
  size : r.ipBytes.length = 4
  done : r.ipBytes.take r.byteIndex = done
  index : r.byteIndex ≤ 4
  byte : r.byte ≤ 255

theorem Reader.Ready.length {r : Reader} {done : Bytes} (h : r.Ready done) :
    done.length = r.byteIndex := by
  rw [← h.done, List.length_take, h.size]
  exact Nat.min_eq_left h.index

/-- One more octet in the array. -/
theorem Reader.Ready.store {r : Reader} {done : Bytes} (h : r.Ready done)
    (hindex : r.byteIndex < 4) (b : UInt8) :
    Reader.Ready
      { ipBytes := r.ipBytes.set r.byteIndex b, byte := 0, byteIndex := r.byteIndex + 1,
        hasDigits := false } (done ++ [b]) := by
  have hlt : r.byteIndex < r.ipBytes.length := by
    rw [h.size]
    exact hindex
  refine ⟨by rw [List.length_set, h.size], ?_, hindex, Nat.zero_le _⟩
  simp only []
  rw [List.take_add_one, List.take_set_of_le (Nat.le_refl _), h.done,
    List.getElem?_set_self hlt]
  rfl

/-- **No step traps**, and the variables read the octets. -/
theorem ipLoop_eq {r : Reader} {done : Bytes} (h : r.Ready done) (s : Bytes) :
    ipLoop r s = some (readOctets done r.byte r.hasDigits s) := by
  induction s generalizing r done with
  | nil =>
    rw [ipLoop]
    by_cases hend : r.byteIndex = 3
    · have hstored := (h.store (by omega) (UInt8.ofNat r.byte)).done
      have hdone : done.length = 3 := h.length.trans hend
      have hsize : (r.ipBytes.set r.byteIndex (UInt8.ofNat r.byte)).length = 4 := by
        rw [List.length_set, h.size]
      obtain ⟨a, b, c, rfl⟩ := List.length_eq_three.mp hdone
      simp only [hend] at hstored hsize
      rw [List.take_of_length_le (by omega)] at hstored
      cases hd : r.hasDigits with
      | false => simp [readOctets]
      | true =>
        have hindex : 3 < r.ipBytes.length := by
          rw [h.size]
          decide
        simp [readOctets, hend, Checked.set_eq hindex, hstored, ipOf]
    · rw [if_pos (.inl hend), readOctets_nil_of_ne (by rwa [h.length])]
  | cons char rest ih =>
    rw [ipLoop, readOctets, h.length]
    split
    · split
      · rfl
      · next hroom =>
        rw [not_or, Nat.not_le] at hroom
        have hindex : r.byteIndex + 1 < 2 ^ 8 := by omega
        rw [Checked.set_eq (by rw [h.size]; exact hroom.1), Checked.add_eq hindex]
        exact ih (h.store hroom.1 _)
    · split
      · rfl
      · next hdigit =>
        have hd := isDigit_toNat (Classical.not_not.mp (mt not_isDigit_iff.mp hdigit))
        simp only [Checked.sub_eq hd.1, Checked.sub_eq (show char.toNat - 48 ≤ 255 by omega),
          Checked.div_eq (show (10 : Nat) ≠ 0 by decide), Option.bind_eq_bind, Option.bind_some]
        split
        · rfl
        · next hfits =>
          have hbyte : r.byte * 10 + (char.toNat - 48) ≤ 255 := by omega
          rw [Checked.mul_eq (by omega), Option.bind_some, Checked.add_eq (by omega),
            Option.bind_some]
          exact ih ⟨h.size, h.done, h.index, hbyte⟩

/-- **`ipStringToBytes` never traps.** -/
theorem ipStringToBytes_eq (undefinedBytes : Vector UInt8 4) (ipString : Bytes) :
    ipStringToBytes undefinedBytes ipString = some (Net.ipStringToBytes ipString) :=
  ipLoop_eq ⟨by simp, rfl, Nat.zero_le _, Nat.zero_le _⟩ ipString

end Machine

/-! ## What is accepted -/

/-- A run of digits of any length, leading zeros included, whose value is an octet. -/
structure OctetText (digits : Bytes) (value : UInt8) : Prop where
  nonempty : digits ≠ []
  all : ∀ c ∈ digits, isDigit c
  value : decimalValue digits = value.toNat

/-- The octets of an address. -/
def octets (ip : Ip) : List UInt8 := [ip.1, ip.2.1, ip.2.2.1, ip.2.2.2]

/-- Four octets with single dots between them. -/
def DottedQuad (s : Bytes) (ip : Ip) : Prop := Separated 46 OctetText s (octets ip)

theorem OctetText.no_dot (digits : Bytes) (value : UInt8) (h : OctetText digits value) :
    46 ∉ digits :=
  not_mem_of_digits (by decide) h.all

/-- Whether the octet that was being read is complete. -/
theorem octetText_iff {digits : Bytes} {byte : Nat} {hasDigits : Bool}
    (h : Reading 255 digits byte hasDigits) {value : UInt8} :
    OctetText digits value ↔ hasDigits = true ∧ value = UInt8.ofNat byte := by
  constructor
  · intro ho
    refine ⟨h.hasDigits.mpr ho.nonempty, ?_⟩
    rw [← h.value, ho.value, UInt8.ofNat_toNat]
  · rintro ⟨hd, rfl⟩
    have hfits := h.fits
    refine ⟨h.hasDigits.mp hd, h.all, ?_⟩
    rw [h.value, UInt8.toNat_ofNat', Nat.mod_eq_of_lt (by omega)]

theorem octets_eq_iff {ip : Ip} {a b c d : UInt8} :
    octets ip = [a, b, c, d] ↔ (a, b, c, d) = ip := by
  obtain ⟨w, x, y, z⟩ := ip
  simp only [octets, List.cons.injEq, Prod.mk.injEq, and_true]
  constructor <;> (rintro ⟨rfl, rfl, rfl, rfl⟩; exact ⟨rfl, rfl, rfl, rfl⟩)

theorem octets_length (ip : Ip) : (octets ip).length = 4 := rfl

/-- The text ends: the octet being read has to be the fourth. -/
theorem readOctets_nil {done : List UInt8} {byte : Nat} {hasDigits : Bool} {ip : Ip} :
    readOctets done byte hasDigits [] = some ip ↔
      hasDigits = true ∧ octets ip = done ++ [UInt8.ofNat byte] := by
  by_cases hdone : done.length = 3
  · obtain ⟨a, b, c, rfl⟩ := List.length_eq_three.mp hdone
    rw [List.cons_append, List.cons_append, List.cons_append, List.nil_append, octets_eq_iff]
    cases hasDigits <;> simp [readOctets]
  · rw [readOctets_nil_of_ne hdone]
    constructor
    · simp
    · rintro ⟨-, ho⟩
      have hlength := congrArg List.length ho
      rw [octets_length, List.length_append, List.length_singleton] at hlength
      omega

/-- **What is read from any point on** is accepted when it completes the octets behind it. -/
theorem readOctets_iff {done digits : Bytes} {byte : Nat} {hasDigits : Bool} {s : Bytes} {ip : Ip}
    (h : Reading 255 digits byte hasDigits) :
    readOctets done byte hasDigits s = some ip ↔
      ∃ rest, Separated 46 OctetText (digits ++ s) rest ∧ octets ip = done ++ rest := by
  induction s generalizing done digits byte hasDigits with
  | nil =>
    rw [List.append_nil, readOctets_nil]
    have hdots := not_mem_of_digits (show ¬isDigit 46 by decide) h.all
    simp only [separated_iff hdots, octetText_iff h]
    constructor
    · rintro ⟨hd, ho⟩
      exact ⟨_, ⟨_, ⟨hd, rfl⟩, rfl⟩, ho⟩
    · rintro ⟨rest, ⟨value, ⟨hd, rfl⟩, rfl⟩, ho⟩
      exact ⟨hd, ho⟩
  | cons char s ih =>
    rw [readOctets]
    by_cases hdot : char = 46
    · subst hdot
      have hdots := not_mem_of_digits (show ¬isDigit 46 by decide) h.all
      rw [if_pos rfl]
      simp only [separated_cons_iff OctetText.no_dot hdots, octetText_iff h]
      split
      · next hstop =>
        constructor
        · simp
        · rintro ⟨_, ⟨_, tail, ⟨hd, rfl⟩, htail, rfl⟩, ho⟩
          -- a fourth dot is one octet too many, and a dot without digits none
          rcases hstop with hfour | hnone
          · have hlength := congrArg List.length ho
            rw [octets_length, List.length_append, List.length_cons] at hlength
            omega
          · rw [hd] at hnone
            simp at hnone
      · next hgo =>
        rw [not_or, Bool.not_eq_false] at hgo
        rw [ih (.nil 255), List.nil_append]
        constructor
        · rintro ⟨rest, hrest, ho⟩
          exact ⟨_, ⟨_, rest, ⟨hgo.2, rfl⟩, hrest, rfl⟩, by rw [ho, List.append_assoc]; rfl⟩
        · rintro ⟨_, ⟨_, tail, ⟨hd, rfl⟩, htail, rfl⟩, ho⟩
          exact ⟨tail, htail, by rw [ho, List.append_assoc]; rfl⟩
    · rw [if_neg hdot]
      by_cases hchar : isDigit char
      · rw [if_neg (fun hr => not_isDigit_iff.mpr hr hchar)]
        simp only
        split
        · next hbig =>
          -- with this digit the octet is past 255, whatever follows
          constructor
          · simp
          · rintro ⟨rest, hsep, -⟩
            have hdots := not_mem_of_digits (show ¬isDigit 46 by decide) h.all
            obtain ⟨more, value, hword⟩ := hsep.first_word_snoc hdots hdot
            have hover := h.too_big (c := char) (by omega) more
            rw [hword.value] at hover
            exact absurd value.toNat_lt (by omega)
        · next hfits =>
          have hd := isDigit_toNat hchar
          rw [ih (h.snoc hchar (by omega)), List.append_assoc, List.singleton_append]
      · rw [if_pos (not_isDigit_iff.mp hchar)]
        constructor
        · simp
        · rintro ⟨rest, hsep, -⟩
          rcases hsep.mem (fun _ _ hw => hw.all) char (by simp) with hc | hc
          · exact absurd hc hdot
          · exact absurd hc hchar

/-- **The accepted strings are the dotted quads**, with their values. -/
theorem ipStringToBytes_iff (s : Bytes) (ip : Ip) :
    ipStringToBytes s = some ip ↔ DottedQuad s ip := by
  rw [ipStringToBytes, readOctets_iff (.nil 255)]
  constructor
  · rintro ⟨rest, hrest, ho⟩
    rw [List.nil_append] at hrest ho
    rwa [← ho] at hrest
  · exact fun h => ⟨octets ip, h, rfl⟩

/-- The four runs of digits of a dotted quad. -/
theorem dottedQuad_iff (s : Bytes) (ip : Ip) :
    DottedQuad s ip ↔ ∃ a b c d, s = a ++ 46 :: (b ++ 46 :: (c ++ 46 :: d)) ∧
      OctetText a ip.1 ∧ OctetText b ip.2.1 ∧ OctetText c ip.2.2.1 ∧ OctetText d ip.2.2.2 := by
  constructor
  · intro h
    rcases h with _ | ⟨ha, _ | ⟨hb, _ | ⟨hc, ⟨hd⟩ | ⟨-, hnil⟩⟩⟩⟩
    · exact ⟨_, _, _, _, rfl, ha, hb, hc, hd⟩
    · cases hnil
  · rintro ⟨a, b, c, d, rfl, ha, hb, hc, hd⟩
    exact .more ha (.more hb (.more hc (.last hd)))

/-- The text of an address fits the buffer of fifteen bytes. -/
theorem length_formatIp (ip : Ip) : (formatIp ip).length ≤ 15 := by
  have hdecimal : ∀ b : UInt8, (decimal b).length ≤ 3 := by
    intro b
    rw [decimal_eq]
    split
    · simp
    · split <;> simp
  obtain ⟨a, b, c, d⟩ := ip
  have ha := hdecimal a
  have hb := hdecimal b
  have hc := hdecimal c
  have hd := hdecimal d
  simp only [formatIp, List.length_append, List.length_cons]
  omega

/-- **Exactly the dotted quads are read, no step traps, and an address that was written is read
back.** -/
theorem ipStringToBytes_exact (undefinedBytes : Vector UInt8 4) :
    (∀ s : Bytes, ∃ result, Machine.ipStringToBytes undefinedBytes s = some result ∧
      ∀ ip, result = some ip ↔ ∃ a b c d, s = a ++ 46 :: (b ++ 46 :: (c ++ 46 :: d)) ∧
        OctetText a ip.1 ∧ OctetText b ip.2.1 ∧ OctetText c ip.2.2.1 ∧ OctetText d ip.2.2.2) ∧
      ∀ ip, Machine.ipStringToBytes undefinedBytes (formatIp ip) = some (some ip) := by
  refine ⟨fun s => ⟨_, Machine.ipStringToBytes_eq undefinedBytes s, fun ip => ?_⟩, fun ip => ?_⟩
  · rw [ipStringToBytes_iff, dottedQuad_iff]
  · rw [Machine.ipStringToBytes_eq, ipStringToBytes_formatIp]

end NetScanner.Net
