import Mathlib.Algebra.Order.BigOperators.Group.List
import Mathlib.Algebra.Order.Group.Nat
import Mathlib.Data.Nat.ModEq
import NetScanner.Infra.Bytes

/-!
# Ones'-complement sums

Numbers of `bits` bits, added with the carry brought around to the low end (`onesAdd`). Zero has
two forms there, no bit and every bit, and a sum has no bit only when no summand has one.

`onesForm bits n` is the form a plain sum `n` takes: it does not matter when the carries are
brought around (`onesSum_eq`, `onesForm_fold`), and a number and its complement make every bit
(`onesForm_add_not`).
-/

namespace NetScanner.Infra

/-- The number with every bit. -/
def allOnes (bits : Nat) : Nat := 2 ^ bits - 1

/-- The sum of two numbers; the carry is added at the low end. -/
def onesAdd (bits a b : Nat) : Nat :=
  if a + b < 2 ^ bits then a + b else a + b - 2 ^ bits + 1

/-- The sum of many. -/
def onesSum (bits : Nat) (words : List Nat) : Nat := words.foldl (onesAdd bits) 0

/-- The form a number takes in `bits` bits: zero only for zero. -/
def onesForm (bits n : Nat) : Nat := if n = 0 then 0 else (n - 1) % allOnes bits + 1

/-! ## The form of a number -/

section Form

variable {bits : Nat}

theorem allOnes_add_one (bits : Nat) : allOnes bits + 1 = 2 ^ bits :=
  Nat.sub_add_cancel Nat.one_le_two_pow

theorem allOnes_pos (h : 0 < bits) : 0 < allOnes bits := by
  have := Nat.one_lt_two_pow (Nat.ne_of_gt h)
  rw [allOnes]
  omega

/-- **A form is known by three things**: it fits, it is the number but for the carries, and it
is zero only for zero. -/
theorem onesForm_unique {n r : Nat} (hlt : r < 2 ^ bits)
    (hmod : r ≡ n [MOD allOnes bits]) (hzero : r = 0 ↔ n = 0) : onesForm bits n = r := by
  have hones := allOnes_add_one bits
  unfold onesForm
  split
  · next hn => exact (hzero.mpr hn).symm
  · next hn =>
    have hr : r ≠ 0 := fun h => hn (hzero.mp h)
    have hpred : r - 1 ≡ n - 1 [MOD allOnes bits] := by
      refine Nat.ModEq.add_right_cancel' 1 ?_
      rwa [Nat.sub_add_cancel (by omega), Nat.sub_add_cancel (by omega)]
    rw [← hpred, Nat.mod_eq_of_lt (by omega)]
    omega

theorem onesForm_lt (hbits : 0 < bits) (n : Nat) : onesForm bits n < 2 ^ bits := by
  have hones := allOnes_add_one bits
  have hpos := allOnes_pos hbits
  unfold onesForm
  split
  · omega
  · have := Nat.mod_lt (n - 1) hpos
    omega

theorem onesForm_modEq (bits n : Nat) : onesForm bits n ≡ n [MOD allOnes bits] := by
  unfold onesForm
  split
  · next h => rw [h]
  · next h =>
    have hpred : (n - 1) % allOnes bits + 1 ≡ n - 1 + 1 [MOD allOnes bits] :=
      (Nat.mod_modEq _ _).add_right 1
    rwa [Nat.sub_add_cancel (by omega)] at hpred

theorem onesForm_eq_zero_iff {n : Nat} : onesForm bits n = 0 ↔ n = 0 := by
  unfold onesForm
  split
  · next h => exact ⟨fun _ => h, fun _ => rfl⟩
  · next h => exact ⟨fun hzero => absurd hzero (Nat.succ_ne_zero _), fun hn => absurd hn h⟩

/-- A number that fits is its own form. -/
theorem onesForm_of_lt {n : Nat} (h : n < 2 ^ bits) : onesForm bits n = n :=
  onesForm_unique h rfl Iff.rfl

theorem two_pow_modEq_one (bits : Nat) : 2 ^ bits ≡ 1 [MOD allOnes bits] := by
  rw [← allOnes_add_one]
  exact Nat.add_modEq_left

/-- **Adding the high part to the low one keeps the form.** -/
theorem onesForm_fold (hbits : 0 < bits) (n : Nat) :
    onesForm bits (n % 2 ^ bits + n / 2 ^ bits) = onesForm bits n := by
  have hhigh : n / 2 ^ bits ≡ 2 ^ bits * (n / 2 ^ bits) [MOD allOnes bits] := by
    have hone := (two_pow_modEq_one bits).symm.mul_right (n / 2 ^ bits)
    rwa [Nat.one_mul] at hone
  refine (onesForm_unique (onesForm_lt hbits _) ?_ ?_).symm
  · calc onesForm bits (n % 2 ^ bits + n / 2 ^ bits)
        ≡ n % 2 ^ bits + n / 2 ^ bits [MOD allOnes bits] := onesForm_modEq bits _
      _ ≡ n % 2 ^ bits + 2 ^ bits * (n / 2 ^ bits) [MOD allOnes bits] := hhigh.add_left _
      _ = n := Nat.mod_add_div n _
  · rw [onesForm_eq_zero_iff, Nat.add_eq_zero_iff]
    constructor
    · rintro ⟨hlow, hhigh⟩
      rw [← Nat.mod_add_div n (2 ^ bits), hlow, hhigh]
      rfl
    · rintro rfl
      exact ⟨Nat.zero_mod _, Nat.zero_div _⟩

/-- **A number and the complement of its form make every bit**, and zero is no exception. -/
theorem onesForm_add_not (hbits : 0 < bits) (n : Nat) :
    onesForm bits (n + (allOnes bits - onesForm bits n)) = allOnes bits := by
  have hones := allOnes_add_one bits
  have hpos := allOnes_pos hbits
  have hlt := onesForm_lt hbits n
  refine onesForm_unique (by omega) ?_ ?_
  · have hsum : onesForm bits n + (allOnes bits - onesForm bits n) ≡
        n + (allOnes bits - onesForm bits n) [MOD allOnes bits] :=
      (onesForm_modEq bits n).add_right _
    rwa [Nat.add_sub_cancel' (by omega)] at hsum
  · constructor
    · omega
    · intro hzero
      have hn : n = 0 := by omega
      have hform : onesForm bits n = 0 := onesForm_eq_zero_iff.mpr hn
      omega

/-! ## Sums -/

/-- The carry may be brought around now or later. -/
theorem onesAdd_onesForm (hbits : 0 < bits) (n : Nat) {word : Nat} (h : word < 2 ^ bits) :
    onesAdd bits (onesForm bits n) word = onesForm bits (n + word) := by
  have hones := allOnes_add_one bits
  have hlt := onesForm_lt hbits n
  have hzero : onesForm bits n = 0 ↔ n = 0 := onesForm_eq_zero_iff
  have hmod : onesForm bits n + word ≡ n + word [MOD allOnes bits] :=
    (onesForm_modEq bits n).add_right word
  symm
  unfold onesAdd
  split
  · next hfits => exact onesForm_unique hfits hmod (by omega)
  · next hcarry =>
    refine onesForm_unique (by omega) ?_ (by omega)
    refine Nat.ModEq.trans ?_ hmod
    have hsplit : onesForm bits n + word =
        onesForm bits n + word - 2 ^ bits + 1 + allOnes bits := by omega
    conv_rhs => rw [hsplit]
    exact Nat.add_modEq_right.symm

/-- **A sum with the carries brought around is the form of the plain sum.** -/
theorem onesSum_eq (hbits : 0 < bits) {words : List Nat} (h : ∀ word ∈ words, word < 2 ^ bits) :
    onesSum bits words = onesForm bits words.sum := by
  have hfold : ∀ (words : List Nat) (n : Nat), (∀ word ∈ words, word < 2 ^ bits) →
      words.foldl (onesAdd bits) (onesForm bits n) = onesForm bits (n + words.sum) := by
    intro words
    induction words with
    | nil => exact fun n _ => rfl
    | cons word words ih =>
      intro n h
      rw [List.foldl_cons, onesAdd_onesForm hbits n (h word List.mem_cons_self),
        ih (n + word) fun w hw => h w (List.mem_cons_of_mem _ hw), List.sum_cons, Nat.add_assoc]
  have := hfold words 0 h
  rwa [Nat.zero_add] at this

end Form

/-! ## Bytes as words -/

/-- The big-endian words of 16 bits; an odd byte at the end is the high one of a last word. -/
def beWords : Bytes → List Nat
  | high :: low :: rest => (256 * high.toNat + low.toNat) :: beWords rest
  | [high] => [256 * high.toNat]
  | [] => []

theorem lt_of_mem_beWords {bytes : Bytes} : ∀ word ∈ beWords bytes, word < 2 ^ 16 := by
  induction bytes using beWords.induct with
  | case1 high low rest ih =>
    have hhigh := high.toNat_lt
    have hlow := low.toNat_lt
    rw [beWords, List.forall_mem_cons]
    exact ⟨by omega, ih⟩
  | case2 high =>
    have hhigh := high.toNat_lt
    rw [beWords, List.forall_mem_cons]
    exact ⟨by omega, by simp⟩
  | case3 => simp [beWords]

theorem length_beWords (bytes : Bytes) : (beWords bytes).length = (bytes.length + 1) / 2 := by
  induction bytes using beWords.induct with
  | case1 high low rest ih =>
    rw [beWords, List.length_cons, ih, List.length_cons, List.length_cons]
    omega
  | case2 high => simp [beWords]
  | case3 => rfl

/-- Words do not reach across an even offset. -/
theorem beWords_append {a : Bytes} (heven : a.length % 2 = 0) (b : Bytes) :
    beWords (a ++ b) = beWords a ++ beWords b := by
  induction a using beWords.induct with
  | case1 high low rest ih =>
    rw [List.length_cons, List.length_cons] at heven
    rw [List.cons_append, List.cons_append, beWords, ih (by omega), beWords, List.cons_append]
  | case2 high => simp at heven
  | case3 => rfl

/-- No word is more than every bit. -/
theorem sum_beWords_le (bytes : Bytes) :
    (beWords bytes).sum ≤ (bytes.length + 1) / 2 * (2 ^ 16 - 1) := by
  rw [← length_beWords]
  exact List.sum_le_card_nsmul _ _ fun word h => Nat.le_pred_of_lt (lt_of_mem_beWords word h)

end NetScanner.Infra
