import NetScanner.Infra.Checked
import NetScanner.Infra.Utf8

/-!
# The status line on a narrow terminal

`src/core/live.zig`, `truncateUtf8`: the line is cut to the width of the terminal in bytes, and
the cut backs up over the bytes that continue a character (`backUp`).

`WholeCut` says what is left whole, and `truncateUtf8_longest` that no more could be kept of a
line of any mix of characters.
-/

namespace NetScanner.Live

open Infra

/-- The loop of `truncateUtf8`, on `end`. -/
def backUp (line : Bytes) : Nat → Checked Nat
  | 0 => some 0
  | stop + 1 => do
    let b ← Checked.get line (stop + 1)
    if b &&& 0xC0 = 0x80 then backUp line stop else some (stop + 1)

/-- `truncateUtf8`: none where it would read past the line. -/
def truncateUtf8 (line : Bytes) (maxBytes : Nat) : Checked Bytes :=
  if line.length ≤ maxBytes then some line
  else do
    let stop ← backUp line maxBytes
    Checked.window line 0 stop

/-- A start of the line that fits and does not split a character. -/
structure WholeCut (line : Bytes) (maxBytes : Nat) (cut : Bytes) : Prop where
  start : cut <+: line
  fits : cut.length ≤ maxBytes
  whole : IsUtf8 cut

/-- **The loop stops at the last place where the text may be cut.** -/
theorem backUp_last {line : Bytes} (h : IsUtf8 line) {n : Nat} (hn : n < line.length) :
    ∃ stop, backUp line n = some stop ∧ stop ≤ n ∧ IsUtf8 (line.take stop) ∧
      ∀ i ≤ n, IsUtf8 (line.take i) → i ≤ stop := by
  induction n with
  | zero => exact ⟨0, rfl, Nat.le_refl _, isUtf8_nil, fun i hi _ => hi⟩
  | succ n ih =>
    have hcut := isUtf8_take_iff h hn
    rw [backUp, Checked.get_eq hn, Option.bind_eq_bind, Option.bind_some]
    split
    · next hinside =>
      obtain ⟨stop, hstop, hle, hwhole, hlast⟩ := ih (Nat.lt_of_succ_lt hn)
      refine ⟨stop, hstop, Nat.le_succ_of_le hle, hwhole, fun i hi hi' => ?_⟩
      rcases Nat.le_succ_iff.mp hi with hi | rfl
      · exact hlast i hi hi'
      · exact absurd hinside (hcut.mp hi')
    · next hfirst => exact ⟨n + 1, rfl, Nat.le_refl _, hcut.mpr hfirst, fun i hi _ => hi⟩

theorem truncateUtf8_cut {line : Bytes} (h : IsUtf8 line) (maxBytes : Nat) :
    ∃ cut, truncateUtf8 line maxBytes = some cut ∧ WholeCut line maxBytes cut ∧
      ∀ other, WholeCut line maxBytes other → other <+: cut := by
  unfold truncateUtf8
  split
  · next hfits =>
    exact ⟨line, rfl, ⟨List.prefix_refl _, hfits, h⟩, fun other hother => hother.start⟩
  · next hlong =>
    obtain ⟨stop, hstop, hle, hwhole, hlast⟩ := backUp_last h (Nat.not_le.mp hlong)
    refine ⟨line.take stop, ?_, ⟨List.take_prefix _ _, ?_, hwhole⟩, fun other hother => ?_⟩
    · rw [hstop, Option.bind_eq_bind, Option.bind_some,
        Checked.window_eq (Nat.zero_le _) (by omega), slice, List.drop_zero, Nat.sub_zero]
    · exact Nat.le_trans (List.length_take_le _ _) hle
    · have hother' : other = line.take other.length := List.prefix_iff_eq_take.mp hother.start
      have hwhole' := hother.whole
      rw [hother'] at hwhole'
      rw [hother']
      exact List.take_prefix_take_left (hlast other.length hother.fits hwhole')

/-- **The longest start of the line that fits and splits no character is kept.** -/
theorem truncateUtf8_longest {line : Bytes} (h : IsUtf8 line) (maxBytes : Nat) :
    ∃ cut, truncateUtf8 line maxBytes = some cut ∧ WholeCut line maxBytes cut ∧
      ∀ other, WholeCut line maxBytes other → other <+: cut :=
  truncateUtf8_cut h maxBytes

/-- A spinner, text and an ellipsis, cut inside of the ellipsis. -/
theorem truncateUtf8_longest_ellipsis :
    truncateUtf8 (utf8 ['⠹', ' ', 'a', 'b', '…']) 8 = some (utf8 ['⠹', ' ', 'a', 'b']) ∧
    ∀ other, WholeCut (utf8 ['⠹', ' ', 'a', 'b', '…']) 8 other →
      other <+: utf8 ['⠹', ' ', 'a', 'b'] := by
  have hrun : truncateUtf8 (utf8 ['⠹', ' ', 'a', 'b', '…']) 8 =
      some (utf8 ['⠹', ' ', 'a', 'b']) := by decide
  obtain ⟨cut, hcut, -, hlongest⟩ :=
    truncateUtf8_longest (isUtf8_utf8 ['⠹', ' ', 'a', 'b', '…']) 8
  obtain rfl := Option.some.inj (hcut.symm.trans hrun)
  exact ⟨hrun, hlongest⟩

end NetScanner.Live
