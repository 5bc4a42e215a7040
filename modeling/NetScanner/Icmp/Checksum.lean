import NetScanner.Icmp.Reply
import NetScanner.Infra.OnesComplement

/-!
# The checksum of an echo

`src/c/icmp_ping.c`, `checksum`: the words are added up in 32 bits, and the carries are folded
in at the end.

`Machine.checksum` is the function with its index, its accumulator and its two loops: none where
the accumulator overflows, a byte past the end is read, or the carries are not folded in after
two rounds. `Machine.checksum_eq` says that this does not happen, `checksum_toNat` that what is
returned is the complement of the ones'-complement sum, and `checksum_verifies` that the sum of
data with its checksum written into it has every bit.
-/

namespace NetScanner.Icmp

open Infra

/-! ## The function -/

namespace Machine

/-- A round of `for (size_t i = 0; i + 1 < len; i += 2)`, on `i` and `sum`. -/
def sumRound (data : List UInt8) (s : Nat × Nat) : Checked (Checked.Round (Nat × Nat) Nat) :=
  if s.1 + 1 < data.length then do
    let high ← Checked.get data s.1
    let low ← Checked.get data (s.1 + 1)
    let sum ← Checked.add 32 s.2 (high.toNat <<< 8 ||| low.toNat)
    some (.again (s.1 + 2, sum))
  else some (.stop s.2)

/-- A round of `while (sum >> 16)`. -/
def foldRound (sum : Nat) : Checked (Checked.Round Nat Nat) :=
  if sum >>> 16 ≠ 0 then do
    let sum ← Checked.add 32 (sum &&& 0xFFFF) (sum >>> 16)
    some (.again sum)
  else some (.stop sum)

/-- `checksum`: the last round of a loop is the one that leaves it. -/
def checksum (data : List UInt8) : Checked UInt16 := do
  let sum ← Checked.rounds (sumRound data) (data.length / 2 + 1) (0, 0)
  let sum ← (if data.length &&& 1 ≠ 0 then do
      let last ← Checked.get data (data.length - 1)
      Checked.add 32 sum (last.toNat <<< 8)
    else some sum)
  let sum ← Checked.rounds foldRound 3 sum
  some (~~~UInt32.ofNat sum).toUInt16

end Machine

/-- A number written big-endian into two bytes. -/
def putUInt16 (data : List UInt8) (i : Nat) (x : UInt16) : List UInt8 :=
  (data.set i (x >>> 8).toUInt8).set (i + 1) x.toUInt8

/-! ## What is computed -/

theorem shiftLeft_or_eq (high low : UInt8) :
    high.toNat <<< 8 ||| low.toNat = 256 * high.toNat + low.toNat := by
  rw [Nat.shiftLeft_eq, Nat.mul_comm]
  exact (Nat.two_pow_add_eq_or_of_lt low.toNat_lt high.toNat).symm

theorem toNat_high (high : UInt8) : (high.toUInt32 <<< 8).toNat = high.toNat <<< 8 := by
  have hlt := high.toNat_lt
  rw [UInt32.toNat_shiftLeft, UInt8.toNat_toUInt32]
  show high.toNat <<< 8 % 2 ^ 32 = high.toNat <<< 8
  rw [Nat.shiftLeft_eq]
  omega

/-- The accumulator is the plain sum when that fits. -/
theorem sumWords_toNat {sum : UInt32} {data : List UInt8}
    (h : sum.toNat + (beWords data).sum < 2 ^ 32) :
    (sumWords sum data).toNat = sum.toNat + (beWords data).sum := by
  induction sum, data using sumWords.induct with
  | case1 sum high low rest ih =>
    rw [beWords, List.sum_cons] at h
    have hadd : (sum + (high.toUInt32 <<< 8 ||| low.toUInt32)).toNat =
        sum.toNat + (256 * high.toNat + low.toNat) := by
      rw [UInt32.toNat_add, UInt32.toNat_or, toNat_high, UInt8.toNat_toUInt32, shiftLeft_or_eq,
        Nat.mod_eq_of_lt (by omega)]
    rw [hadd] at ih
    rw [sumWords, ih (by omega), beWords, List.sum_cons, Nat.add_assoc]
  | case2 sum high =>
    rw [beWords, List.sum_singleton] at h ⊢
    rw [sumWords, UInt32.toNat_add, toNat_high, Nat.shiftLeft_eq, Nat.mul_comm,
      Nat.mod_eq_of_lt h]
  | case3 sum => rfl

/-- **Folding ends in the ones'-complement form of the sum.** -/
theorem foldCarries_toNat (sum : UInt32) : (foldCarries sum).toNat = onesForm 16 sum.toNat := by
  induction sum using foldCarries.induct with
  | case1 sum h =>
    rw [foldCarries, if_pos h, onesForm_of_lt (shiftRight_eq_zero_iff.mp h)]
  | case2 sum h ih => rw [foldCarries, if_neg h, ih, fold_toNat, onesForm_fold (by decide)]

/-- The accumulator of so few bytes has room to spare. -/
theorem sum_lt {data : List UInt8} (hlen : data.length ≤ 65535) :
    (beWords data).sum < 2 ^ 32 := by
  have := sum_beWords_le data
  omega

/-- The sum with its carries folded in. -/
theorem foldCarries_sumWords {data : List UInt8} (hlen : data.length ≤ 65535) :
    (foldCarries (sumWords 0 data)).toNat = onesForm 16 (beWords data).sum := by
  have hsum : (0 : UInt32).toNat + (beWords data).sum = (beWords data).sum := Nat.zero_add _
  rw [foldCarries_toNat, sumWords_toNat (by rw [hsum]; exact sum_lt hlen), hsum]

/-- **The checksum is the complement of the ones'-complement sum.** -/
theorem checksum_toNat {data : List UInt8} (hlen : data.length ≤ 65535) :
    (checksum data).toNat = allOnes 16 - onesForm 16 (beWords data).sum := by
  have hlt : onesForm 16 (beWords data).sum < 2 ^ 16 := onesForm_lt (by decide) _
  rw [checksum, UInt32.toNat_toUInt16, UInt32.toNat_not, foldCarries_sumWords hlen]
  show (2 ^ 32 - 1 - onesForm 16 (beWords data).sum) % 2 ^ 16 =
    2 ^ 16 - 1 - onesForm 16 (beWords data).sum
  omega

/-! ## The loops -/

namespace Machine

/-- The bytes the loop goes over. -/
def wholeWords (data : List UInt8) : List UInt8 := data.take (data.length / 2 * 2)

theorem length_wholeWords (data : List UInt8) :
    (wholeWords data).length = data.length / 2 * 2 := by
  rw [wholeWords, List.length_take]
  omega

theorem sum_wholeWords_lt {data : List UInt8} (hlen : data.length ≤ 65535) :
    (beWords (wholeWords data)).sum < 2 ^ 32 :=
  sum_lt (by rw [length_wholeWords]; omega)

/-- What the loop comes to. -/
def sumResult (data : List UInt8) (s : Nat × Nat) : Nat :=
  s.2 + (beWords ((wholeWords data).drop s.1)).sum

/-- The index is even, and the accumulator will not overflow. -/
structure SumInv (data : List UInt8) (s : Nat × Nat) : Prop where
  even : s.1 % 2 = 0
  fits : sumResult data s < 2 ^ 32

/-- The next word of the loop. -/
theorem drop_wholeWords {data : List UInt8} {i : Nat} (heven : i % 2 = 0)
    (h : i + 1 < data.length) :
    (wholeWords data).drop i = data[i] :: data[i + 1] :: (wholeWords data).drop (i + 2) := by
  have hlen := length_wholeWords data
  rw [List.drop_eq_getElem_cons (by omega), List.drop_eq_getElem_cons (by omega)]
  simp only [wholeWords, List.getElem_take]

theorem sumRound_follows (data : List UInt8) (s : Nat × Nat) (h : SumInv data s) :
    ∃ r, sumRound data s = some r ∧
      r.Follows (SumInv data) (fun s => data.length / 2 - s.1 / 2) (sumResult data) s := by
  obtain ⟨i, sum⟩ := s
  have heven : i % 2 = 0 := h.even
  unfold sumRound
  split
  · next hmore =>
    have hmore : i + 1 < data.length := hmore
    have hresult : sumResult data (i + 2, sum + (256 * data[i].toNat + data[i + 1].toNat)) =
        sumResult data (i, sum) := by
      simp only [sumResult]
      rw [drop_wholeWords heven hmore, beWords, List.sum_cons, Nat.add_assoc]
    have hfits := h.fits
    rw [← hresult] at hfits
    have hadd : sum + (256 * data[i].toNat + data[i + 1].toNat) < 2 ^ 32 :=
      Nat.lt_of_le_of_lt (Nat.le_add_right _ _) hfits
    refine ⟨.again (i + 2, sum + (256 * data[i].toNat + data[i + 1].toNat)), ?_, ?_⟩
    · simp only [Checked.get_eq hmore, Checked.get_eq (Nat.lt_of_succ_lt hmore),
        Option.bind_eq_bind, Option.bind_some, shiftLeft_or_eq, Checked.add_eq hadd]
    · refine ⟨⟨?_, hfits⟩, ?_, hresult⟩
      · show (i + 2) % 2 = 0
        omega
      · show data.length / 2 - (i + 2) / 2 < data.length / 2 - i / 2
        omega
  · next hdone =>
    have hdone : ¬i + 1 < data.length := hdone
    refine ⟨.stop sum, rfl, ?_⟩
    have hnil : (wholeWords data).drop i = [] :=
      List.drop_eq_nil_of_le (by rw [length_wholeWords]; omega)
    show sum = sum + (beWords ((wholeWords data).drop i)).sum
    rw [hnil]
    rfl

/-- With the odd byte the whole words are all. -/
theorem oddByte_eq {data : List UInt8} (hlen : data.length ≤ 65535) :
    (if data.length &&& 1 ≠ 0 then do
      let last ← Checked.get data (data.length - 1)
      Checked.add 32 (beWords (wholeWords data)).sum (last.toNat <<< 8)
    else some (beWords (wholeWords data)).sum) = some (beWords data).sum := by
  have hwhole := length_wholeWords data
  have hsplit : beWords data =
      beWords (wholeWords data) ++ beWords (data.drop (data.length / 2 * 2)) := by
    rw [← beWords_append (by omega), wholeWords, List.take_append_drop]
  rw [Nat.and_one_is_mod]
  split
  · next hodd =>
    have hone : (data.drop (data.length / 2 * 2)).length = 1 := by
      rw [List.length_drop]
      omega
    obtain ⟨last, hlast⟩ := List.length_eq_one_iff.mp hone
    have hget : Checked.get data (data.length - 1) = some last := by
      rw [Checked.get, show data.length - 1 = data.length / 2 * 2 + 0 by omega,
        ← List.getElem?_drop, hlast]
      rfl
    have hsum : (beWords data).sum =
        (beWords (wholeWords data)).sum + last.toNat <<< 8 := by
      rw [hsplit, hlast, List.sum_append, beWords, List.sum_singleton, Nat.shiftLeft_eq,
        Nat.mul_comm]
    rw [hget, Option.bind_eq_bind, Option.bind_some, hsum]
    exact Checked.add_eq (by rw [← hsum]; exact sum_lt hlen)
  · next heven =>
    rw [hsplit, List.drop_eq_nil_of_le (by omega)]
    simp [beWords]

/-- The rounds that are left. -/
def foldRounds (sum : Nat) : Nat := if sum < 2 ^ 16 then 0 else if sum < 2 ^ 17 - 1 then 1 else 2

theorem foldRounds_le (sum : Nat) : foldRounds sum ≤ 2 := by
  unfold foldRounds
  split
  · omega
  · split <;> omega

/-- A fold leaves at most twice `0xFFFF`, and what that leaves has no carry. -/
theorem foldRounds_lt {sum : Nat} (hlt : sum < 2 ^ 32) (h : ¬sum < 2 ^ 16) :
    foldRounds (sum % 2 ^ 16 + sum / 2 ^ 16) < foldRounds sum := by
  unfold foldRounds
  rw [if_neg h]
  by_cases hone : sum < 2 ^ 17 - 1
  · rw [if_pos hone, if_pos (by omega)]
    decide
  · rw [if_neg hone]
    split
    · decide
    · rw [if_pos (by omega)]
      decide

theorem foldRound_follows (sum : Nat) (h : sum < 2 ^ 32) :
    ∃ r, foldRound sum = some r ∧ r.Follows (· < 2 ^ 32) foldRounds (onesForm 16) sum := by
  unfold foldRound
  rw [Nat.shiftRight_eq_div_pow]
  split
  · next hcarry =>
    have hlow : sum &&& 0xFFFF = sum % 2 ^ 16 := Nat.and_two_pow_sub_one_eq_mod sum 16
    have hadd : sum % 2 ^ 16 + sum / 2 ^ 16 < 2 ^ 32 := by omega
    refine ⟨.again (sum % 2 ^ 16 + sum / 2 ^ 16), ?_, hadd, foldRounds_lt h (by omega),
      onesForm_fold (by decide) sum⟩
    rw [hlow, Checked.add_eq hadd]
    rfl
  · next hnone =>
    refine ⟨.stop sum, rfl, ?_⟩
    exact (onesForm_of_lt (by omega)).symm

/-- **The accumulator does not overflow, and the loops end.** -/
theorem checksum_eq {data : List UInt8} (hlen : data.length ≤ 65535) :
    checksum data = some (Icmp.checksum data) := by
  have hlt := sum_lt hlen
  have hresult : sumResult data (0, 0) = (beWords (wholeWords data)).sum := Nat.zero_add _
  have hinv : SumInv data (0, 0) := ⟨rfl, by rw [hresult]; exact sum_wholeWords_lt hlen⟩
  have hsum : Checked.rounds (sumRound data) (data.length / 2 + 1) (0, 0) =
      some (sumResult data (0, 0)) :=
    Checked.rounds_eq (SumInv data) (fun s => data.length / 2 - s.1 / 2) (sumResult data)
      (sumRound_follows data) hinv (by simp only; omega)
  have hfold : Checked.rounds foldRound 3 (beWords data).sum =
      some (onesForm 16 (beWords data).sum) :=
    Checked.rounds_eq (· < 2 ^ 32) foldRounds (onesForm 16) foldRound_follows hlt
      (Nat.lt_succ_of_le (foldRounds_le _))
  have hform : UInt32.ofNat (onesForm 16 (beWords data).sum) = foldCarries (sumWords 0 data) := by
    rw [← foldCarries_sumWords hlen, UInt32.ofNat_toNat]
  rw [checksum, hsum, hresult, Option.bind_eq_bind, Option.bind_some, oddByte_eq hlen,
    Option.bind_some, hfold, Option.bind_some, hform, Icmp.checksum]

end Machine

/-! ## Data with its checksum -/

/-- The two bytes of a number are its word. -/
theorem word_toNat (x : UInt16) :
    256 * (x >>> 8).toUInt8.toNat + x.toUInt8.toNat = x.toNat := by
  rw [toNat_highByte, UInt16.toNat_toUInt8]
  exact Nat.div_add_mod x.toNat 256

theorem putUInt16_append (before after : List UInt8) (a b : UInt8) (x : UInt16) :
    putUInt16 (before ++ a :: b :: after) before.length x =
      before ++ (x >>> 8).toUInt8 :: x.toUInt8 :: after := by
  rw [putUInt16, List.set_append_right _ _ (Nat.le_refl _), Nat.sub_self, List.set_cons_zero,
    List.set_append_right _ _ (Nat.le_add_right _ _), Nat.add_sub_cancel_left,
    List.set_cons_succ, List.set_cons_zero]

/-- Data around the two bytes of a checksum. -/
theorem exists_around {data : List UInt8} {i : Nat} {a b : UInt8} (hhigh : data[i]? = some a)
    (hlow : data[i + 1]? = some b) :
    ∃ before after, data = before ++ a :: b :: after ∧ before.length = i := by
  obtain ⟨hi, rfl⟩ := List.getElem?_eq_some_iff.mp hhigh
  obtain ⟨hi', rfl⟩ := List.getElem?_eq_some_iff.mp hlow
  refine ⟨data.take i, data.drop (i + 2), ?_, List.length_take_of_le (Nat.le_of_lt hi)⟩
  rw [← List.drop_eq_getElem_cons hi', ← List.drop_eq_getElem_cons hi, List.take_append_drop]

/-- **The checksum makes every bit of the sum**, wherever its word is. -/
theorem onesSum_putUInt16 {data : List UInt8} (hlen : data.length ≤ 65535) {i : Nat}
    (heven : i % 2 = 0) (hhigh : data[i]? = some 0) (hlow : data[i + 1]? = some 0) :
    onesSum 16 (beWords (putUInt16 data i (checksum data))) = allOnes 16 := by
  have hsum := checksum_toNat hlen
  obtain ⟨before, after, rfl, rfl⟩ := exists_around hhigh hlow
  generalize checksum (before ++ 0 :: 0 :: after) = x at hsum
  have hplain : (beWords (before ++ (x >>> 8).toUInt8 :: x.toUInt8 :: after)).sum =
      (beWords (before ++ 0 :: 0 :: after)).sum + x.toNat := by
    rw [beWords_append heven, beWords_append heven, beWords, beWords, word_toNat,
      List.sum_append, List.sum_append, List.sum_cons, List.sum_cons]
    show _ + (x.toNat + _) = _ + (0 + _) + x.toNat
    omega
  rw [putUInt16_append, onesSum_eq (by decide) lt_of_mem_beWords, hplain, hsum,
    onesForm_add_not (by decide)]

/-- **The echo that is sent verifies.** -/
theorem sendEcho_verifies (ident : UInt16) (token : UInt32) (index : Nat) :
    onesSum 16 (beWords (sendEcho ident token index)) = allOnes 16 := by
  have hlen : (echoMessage icmpEchoRequestType 0 0 ident token index).length = 40 := by
    simp [echoMessage, echoPayload, uint32Bytes]
  exact onesSum_putUInt16 (i := 2) (by omega) rfl rfl rfl

/-- **The checksum verifies**: it is computed without an overflow and in two rounds of folding
at most, and with it in its two bytes the sum has every bit. -/
theorem checksum_verifies {data : List UInt8} (hlen : data.length ≤ 65535) :
    Machine.checksum data = some (checksum data) ∧
    ∀ i, i % 2 = 0 → data[i]? = some 0 → data[i + 1]? = some 0 →
      onesSum 16 (beWords (putUInt16 data i (checksum data))) = 0xFFFF :=
  ⟨Machine.checksum_eq hlen, fun _ heven hhigh hlow =>
    onesSum_putUInt16 hlen heven hhigh hlow⟩

/-- An odd length, and carries to fold in. -/
theorem checksum_verifies_odd :
    Machine.checksum [0xFF, 0xFE, 0, 0, 0xFF, 0xFF, 0x80] = some 0x8000 ∧
    onesSum 16 (beWords [0xFF, 0xFE, 0x80, 0x00, 0xFF, 0xFF, 0x80]) = 0xFFFF := by
  have h := @checksum_verifies [0xFF, 0xFE, 0, 0, 0xFF, 0xFF, 0x80] (by decide)
  have hrun : Machine.checksum [0xFF, 0xFE, 0, 0, 0xFF, 0xFF, 0x80] = some 0x8000 := by decide
  have hbits := h.2 2 rfl rfl rfl
  rw [Option.some.inj (h.1.symm.trans hrun)] at hbits
  exact ⟨hrun, hbits⟩

end NetScanner.Icmp
