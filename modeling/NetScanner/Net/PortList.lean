import NetScanner.Infra.Checked
import NetScanner.Infra.Numerals

/-!
# Port ranges as text

`src/core/utils.zig`, `splitStringToIntArray`: `"1-1024"` split on the delimiter into port
numbers, in sixteen bits. What is accepted is a list of port numerals with single delimiters
between them (`splitStringToIntArray_iff`). The test for zero after every digit is what rejects
leading zeros: a numeral that was read so far is never zero (`ReadingPort`).
-/

namespace NetScanner.Net

open Infra

/-! ## The reader -/

/-- The variables of `splitStringToIntArray`. -/
structure PortReader where
  array : List Nat
  number : Nat
  hasDigits : Bool

/-- The loop of `splitStringToIntArray`, and what follows it. -/
def portLoop (delimiter : UInt8) (r : PortReader) : Bytes → Checked (Option (List Nat))
  | [] => if r.hasDigits = false then some none else some (some (r.array ++ [r.number]))
  | char :: rest =>
    if char = delimiter then
      if r.hasDigits = false then some none
      else
        portLoop delimiter { array := r.array ++ [r.number], number := 0, hasDigits := false } rest
    else if char < 48 ∨ char > 57 then some none
    else do
      let digit ← Checked.sub char.toNat 48
      let left ← Checked.sub 65535 digit
      let most ← Checked.div left 10
      if r.number > most then some none
      else do
        let tens ← Checked.mul 16 r.number 10
        let number ← Checked.add 16 tens digit
        if number = 0 then some none
        else portLoop delimiter { r with number, hasDigits := true } rest

/-- The port numbers between the delimiters, as far as the list can be allocated; none is
`error.InvalidPortRange`. -/
def splitStringToIntArray (string : Bytes) (delimiter : UInt8) : Checked (Option (List Nat)) :=
  portLoop delimiter { array := [], number := 0, hasDigits := false } string

/-! ## What is accepted -/

/-- A decimal numeral without leading zeros, of a port. -/
structure PortText (digits : Bytes) (port : Nat) : Prop where
  nonempty : digits ≠ []
  all : ∀ c ∈ digits, isDigit c
  noLeadingZero : digits.head? ≠ some 48
  value : decimalValue digits = port
  positive : 1 ≤ port
  fits : port ≤ 65535

/-- Port numerals, one or more, with single delimiters between them. -/
def PortTexts (delimiter : UInt8) (s : Bytes) (ports : List Nat) : Prop :=
  Separated delimiter PortText s ports

/-- The digits of the number that is being read. -/
structure ReadingPort (digits : Bytes) (r : PortReader) : Prop where
  reading : Reading 65535 digits r.number r.hasDigits
  noLeadingZero : digits.head? ≠ some 48
  positive : r.hasDigits = true → 1 ≤ r.number

namespace ReadingPort

variable {digits : Bytes} {r : PortReader} {char : UInt8}

theorem start (array : List Nat) :
    ReadingPort [] { array, number := 0, hasDigits := false } :=
  ⟨.nil _, by simp, by simp⟩

/-- One more digit that leaves the number above zero. -/
theorem snoc (h : ReadingPort digits r) (hchar : isDigit char)
    (hfits : r.number * 10 + (char.toNat - 48) ≤ 65535)
    (hpositive : r.number * 10 + (char.toNat - 48) ≠ 0) :
    ReadingPort (digits ++ [char])
      { r with number := r.number * 10 + (char.toNat - 48), hasDigits := true } := by
  refine ⟨h.reading.snoc hchar hfits, ?_, fun _ => Nat.one_le_iff_ne_zero.mpr hpositive⟩
  cases digits with
  | cons c rest => exact h.noLeadingZero
  | nil =>
    have hzero : r.number = 0 := h.reading.value.symm
    rintro heq
    obtain rfl : char = 48 := Option.some.inj heq
    rw [hzero] at hpositive
    exact hpositive rfl

/-- Whether the number that was being read is complete. -/
theorem portText_iff (h : ReadingPort digits r) {port : Nat} :
    PortText digits port ↔ r.hasDigits = true ∧ port = r.number := by
  constructor
  · intro hp
    exact ⟨h.reading.hasDigits.mpr hp.nonempty, by rw [← h.reading.value, hp.value]⟩
  · rintro ⟨hd, rfl⟩
    exact ⟨h.reading.hasDigits.mp hd, h.reading.all, h.noLeadingZero, h.reading.value,
      h.positive hd, h.reading.fits⟩

/-- A first digit of zero starts no port numeral. -/
theorem zero (h : ReadingPort digits r) (hchar : isDigit char)
    (hzero : r.number * 10 + (char.toNat - 48) = 0) (more : Bytes) (port : Nat) :
    ¬PortText (digits ++ [char] ++ more) port := by
  intro hp
  have hd := isDigit_toNat hchar
  have hnone : r.hasDigits ≠ true := fun hyes => by
    have := h.positive hyes
    omega
  obtain rfl : digits = [] := Classical.not_not.mp (mt h.reading.hasDigits.mpr hnone)
  have hchar48 : char = 48 := UInt8.toNat_inj.mp (show char.toNat = 48 by omega)
  rw [hchar48] at hp
  exact hp.noLeadingZero rfl

end ReadingPort

/-- **What is read from any point on**: nothing traps, and what is accepted completes the
numbers behind it. -/
theorem portLoop_iff {delimiter : UInt8} (hdelimiter : ¬isDigit delimiter) {digits : Bytes}
    {r : PortReader} (h : ReadingPort digits r) (s : Bytes) :
    ∃ result, portLoop delimiter r s = some result ∧ ∀ ports, result = some ports ↔
      ∃ rest, PortTexts delimiter (digits ++ s) rest ∧ ports = r.array ++ rest := by
  have hfree := not_mem_of_digits hdelimiter h.reading.all
  have hword : ∀ w p, PortText w p → delimiter ∉ w :=
    fun w p hp => not_mem_of_digits hdelimiter hp.all
  induction s generalizing digits r with
  | nil =>
    refine ⟨if r.hasDigits = false then none else some (r.array ++ [r.number]),
      by rw [portLoop]; split <;> rfl, fun ports => ?_⟩
    rw [List.append_nil]
    simp only [PortTexts, separated_iff hfree, h.portText_iff]
    cases hd : r.hasDigits
    · simp
    · simp only [Bool.true_eq_false, if_false, Option.some.injEq]
      constructor
      · rintro rfl
        exact ⟨_, ⟨_, ⟨trivial, rfl⟩, rfl⟩, rfl⟩
      · rintro ⟨_, ⟨_, ⟨-, rfl⟩, rfl⟩, rfl⟩
        rfl
  | cons char s ih =>
    rw [portLoop]
    by_cases hsep : char = delimiter
    · -- the number that was read is complete, and the rest starts anew
      subst hsep
      rw [if_pos rfl]
      simp only [PortTexts, separated_cons_iff hword hfree, h.portText_iff]
      cases hd : r.hasDigits with
      | false => exact ⟨none, rfl, by simp⟩
      | true =>
        obtain ⟨result, hrun, hresult⟩ := ih (.start (r.array ++ [r.number])) (by simp)
        refine ⟨result, hrun, fun ports => ?_⟩
        rw [hresult ports, List.nil_append]
        constructor
        · rintro ⟨rest, hrest, rfl⟩
          exact ⟨_, ⟨_, rest, ⟨rfl, rfl⟩, hrest, rfl⟩, by rw [List.append_assoc]; rfl⟩
        · rintro ⟨_, ⟨_, tail, ⟨-, rfl⟩, htail, rfl⟩, rfl⟩
          exact ⟨tail, htail, by rw [List.append_assoc]; rfl⟩
    · rw [if_neg hsep]
      have hreject : (∀ rest, ¬PortTexts delimiter (digits ++ char :: s) rest) →
          ∀ ports, none = some ports ↔
            ∃ rest, PortTexts delimiter (digits ++ char :: s) rest ∧ ports = r.array ++ rest := by
        intro hnot ports
        exact ⟨by simp, fun ⟨rest, hrest, _⟩ => absurd hrest (hnot rest)⟩
      by_cases hchar : isDigit char
      · rw [if_neg fun hr => not_isDigit_iff.mpr hr hchar]
        have hd := isDigit_toNat hchar
        simp only [Checked.sub_eq hd.1, Checked.sub_eq (show char.toNat - 48 ≤ 65535 by omega),
          Checked.div_eq (show (10 : Nat) ≠ 0 by decide), Option.bind_eq_bind, Option.bind_some]
        -- a number that leaves the range with this digit stays out of it with any more
        by_cases hbig : r.number > (65535 - (char.toNat - 48)) / 10
        · rw [if_pos hbig]
          refine ⟨none, rfl, hreject fun rest hrest => ?_⟩
          obtain ⟨more, port, hword⟩ := Separated.first_word_snoc hfree hsep hrest
          have hlarge := h.reading.too_big (c := char) (by omega) more
          have hfits := hword.fits
          rw [hword.value] at hlarge
          omega
        · rw [if_neg hbig]
          have hfits : r.number * 10 + (char.toNat - 48) ≤ 65535 := by omega
          rw [Checked.mul_eq (by omega), Option.bind_some, Checked.add_eq (by omega),
            Option.bind_some]
          split
          · next hzero =>
            refine ⟨none, rfl, hreject fun rest hrest => ?_⟩
            obtain ⟨more, port, hword⟩ := Separated.first_word_snoc hfree hsep hrest
            exact h.zero hchar hzero more port hword
          · next hpositive =>
            have hnext := ih (h.snoc hchar hfits hpositive) (by
              rw [List.mem_append, List.mem_singleton, not_or]
              exact ⟨hfree, fun heq => hsep heq.symm⟩)
            simpa only [List.append_assoc, List.singleton_append] using hnext
      · rw [if_pos (not_isDigit_iff.mp hchar)]
        refine ⟨none, rfl, hreject fun rest hrest => ?_⟩
        rcases hrest.mem (fun _ _ hw => hw.all) char (by simp) with hc | hc
        · exact hsep hc
        · exact hchar hc

theorem splitStringToIntArray_run (string : Bytes) :
    ∃ result, splitStringToIntArray string 45 = some result ∧
      ∀ ports, result = some ports ↔ PortTexts 45 string ports := by
  obtain ⟨result, hrun, hresult⟩ := portLoop_iff (show ¬isDigit 45 by decide) (.start []) string
  refine ⟨result, hrun, fun ports => ?_⟩
  rw [hresult ports]
  simp

/-- **Exactly the lists of port numerals are read, and no step traps.** -/
theorem splitStringToIntArray_exact (string : Bytes) :
    ∃ result, splitStringToIntArray string 45 = some result ∧
      ∀ ports, result = some ports ↔ PortTexts 45 string ports :=
  splitStringToIntArray_run string

example : splitStringToIntArray (ascii "1-1024") 45 = some (some [1, 1024]) := by decide

end NetScanner.Net
