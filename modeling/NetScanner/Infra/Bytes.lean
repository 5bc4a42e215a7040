import Mathlib.Data.List.Basic
import Mathlib.Algebra.Group.Nat.Defs

/-!
# Byte strings

Slices of byte strings, little-endian numbers, and tables of fixed-size records.

`leBytes` writes a number into a fixed number of bytes, `leNat` reads one; the round trip is
exact for a number that fits (`leNat_leBytes`). `slice_flatten` reads one record back out
of a table of records of one size.
-/

namespace NetScanner.Infra

abbrev Bytes := List UInt8

/-- The bytes of a string of ASCII characters. -/
def ascii (s : String) : Bytes := s.toList.map fun c => UInt8.ofNat c.toNat

theorem ascii_append (a b : String) : ascii (a ++ b) = ascii a ++ ascii b := by
  rw [ascii, String.toList_append, List.map_append]
  rfl

/-- What holds of every number below 256 holds of every byte. -/
theorem forall_byte {P : UInt8 → Prop} (h : ∀ n < 256, P (UInt8.ofNat n)) (b : UInt8) : P b := by
  have := h b.toNat b.toNat_lt
  rwa [UInt8.ofNat_toNat] at this

/-- `bytes[i]`; whoever reads keeps `i` below the length. -/
def byteAt (bytes : Bytes) (i : Nat) : UInt8 := bytes.getD i 0

theorem getElem?_of_lt {bytes : Bytes} {i : Nat} (h : i < bytes.length) :
    bytes[i]? = some (byteAt bytes i) := by
  rw [byteAt, List.getD_eq_getElem?_getD, List.getElem?_eq_getElem h]
  rfl

theorem byteAt_of_getElem? {bytes : Bytes} {i : Nat} {b : UInt8} (h : bytes[i]? = some b) :
    i < bytes.length ∧ byteAt bytes i = b := by
  obtain ⟨hlt, -⟩ := List.getElem?_eq_some_iff.mp h
  rw [getElem?_of_lt hlt, Option.some.injEq] at h
  exact ⟨hlt, h⟩

theorem byteAt_append_left {a b : Bytes} {i : Nat} (h : i < a.length) :
    byteAt (a ++ b) i = byteAt a i := by
  rw [byteAt, byteAt, List.getD_eq_getElem?_getD, List.getD_eq_getElem?_getD,
    List.getElem?_append_left h]

theorem byteAt_drop (bytes : Bytes) (start i : Nat) :
    byteAt (bytes.drop start) i = byteAt bytes (start + i) := by
  rw [byteAt, byteAt, List.getD_eq_getElem?_getD, List.getD_eq_getElem?_getD, List.getElem?_drop]

/-- `bytes[start .. stop]`. -/
def slice {α : Type} (bytes : List α) (start stop : Nat) : List α :=
  (bytes.drop start).take (stop - start)

theorem length_slice {α : Type} {bytes : List α} {start stop : Nat} (h : stop ≤ bytes.length) :
    (slice bytes start stop).length = stop - start := by
  rw [slice, List.length_take, List.length_drop]
  omega

/-- A slice that ends inside the first part does not see the second. -/
theorem slice_append_left {α : Type} (a b : List α) {start stop : Nat} (h : stop ≤ a.length) :
    slice (a ++ b) start stop = slice a start stop := by
  unfold slice
  rcases Nat.lt_or_ge stop start with hlt | hge
  · rw [show stop - start = 0 by omega, List.take_zero, List.take_zero]
  · rw [List.drop_append_of_le_length (by omega), List.take_append_of_le_length]
    rw [List.length_drop]
    omega

/-- A slice that starts after the first part. -/
theorem slice_append_right {α : Type} (a b : List α) (start stop : Nat) :
    slice (a ++ b) (a.length + start) (a.length + stop) = slice b start stop := by
  unfold slice
  rw [List.drop_append, List.drop_eq_nil_of_le (by omega), List.nil_append]
  rw [Nat.add_sub_cancel_left, Nat.add_sub_add_left]

@[simp] theorem slice_all {α : Type} (a : List α) : slice a 0 a.length = a := by
  simp [slice]

/-- The part in the middle. -/
theorem slice_append_middle {α : Type} (a b c : List α) :
    slice (a ++ (b ++ c)) a.length (a.length + b.length) = b := by
  have h := slice_append_right a (b ++ c) 0 b.length
  rw [Nat.add_zero] at h
  rw [h, slice_append_left b c (Nat.le_refl _), slice_all]

/-- A slice of a slice. -/
theorem slice_slice {α : Type} (bytes : List α) (start : Nat) {size a b : Nat} (h : b ≤ size) :
    slice (slice bytes start (start + size)) a b = slice bytes (start + a) (start + b) := by
  simp only [slice, List.drop_take, List.drop_drop, List.take_take]
  congr 1
  omega

/-! ## Little-endian numbers -/

/-- `n` in `width` bytes, the lowest first. -/
def leBytes : Nat → Nat → Bytes
  | 0, _ => []
  | width + 1, n => UInt8.ofNat n :: leBytes width (n / 256)

/-- The number whose bytes, the lowest first, these are. -/
def leNat : Bytes → Nat
  | [] => 0
  | b :: rest => b.toNat + 256 * leNat rest

@[simp] theorem length_leBytes (width n : Nat) : (leBytes width n).length = width := by
  induction width generalizing n with
  | zero => rfl
  | succ width ih => rw [leBytes, List.length_cons, ih]

/-- **A number that fits is read back.** -/
theorem leNat_leBytes {width n : Nat} (h : n < 256 ^ width) : leNat (leBytes width n) = n := by
  induction width generalizing n with
  | zero =>
    rw [Nat.pow_zero, Nat.lt_one_iff] at h
    rw [h]
    rfl
  | succ width ih =>
    have hdiv : n / 256 < 256 ^ width := by
      rw [Nat.div_lt_iff_lt_mul (by decide)]
      rwa [Nat.pow_succ] at h
    rw [leBytes, leNat, ih hdiv, UInt8.toNat_ofNat']
    omega

/-- A number in the middle of other bytes. -/
theorem leNat_slice (before after : Bytes) {width n start stop : Nat} (h : n < 256 ^ width)
    (hstart : before.length = start) (hstop : before.length + width = stop) :
    leNat (slice (before ++ (leBytes width n ++ after)) start stop) = n := by
  subst hstart hstop
  have hmiddle := slice_append_middle before (leBytes width n) after
  rw [length_leBytes] at hmiddle
  rw [hmiddle, leNat_leBytes h]

/-! ## Tables of records -/

/-- **Record `i` of a table whose records all have `size` bytes.** -/
theorem slice_flatten {α : Type} {records : List (List α)} {size : Nat}
    (hsize : ∀ record ∈ records, record.length = size) {i : Nat} (hi : i < records.length) :
    slice records.flatten (i * size) (i * size + size) = records[i] := by
  induction records generalizing i with
  | nil => simp at hi
  | cons first rest ih =>
    have hfirst : first.length = size := hsize first List.mem_cons_self
    have hrest : ∀ record ∈ rest, record.length = size := by
      intro record h
      exact hsize record (List.mem_cons_of_mem _ h)
    rw [List.flatten_cons]
    cases i with
    | zero =>
      rw [Nat.zero_mul, Nat.zero_add, slice_append_left _ _ (by omega), ← hfirst, slice_all]
      rfl
    | succ i =>
      have hstart : (i + 1) * size = first.length + i * size := by
        rw [Nat.succ_mul, hfirst, Nat.add_comm]
      rw [hstart, Nat.add_assoc, slice_append_right]
      exact ih hrest (by simpa using hi)

theorem length_flatten_of_size {α : Type} {records : List (List α)} {size : Nat}
    (hsize : ∀ record ∈ records, record.length = size) :
    records.flatten.length = records.length * size := by
  induction records with
  | nil => simp
  | cons first rest ih =>
    rw [List.flatten_cons, List.length_append, List.length_cons, Nat.succ_mul,
      hsize first List.mem_cons_self,
      ih fun record h => hsize record (List.mem_cons_of_mem _ h), Nat.add_comm]

end NetScanner.Infra
