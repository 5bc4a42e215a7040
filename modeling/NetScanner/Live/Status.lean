import NetScanner.Infra.JsonText
import NetScanner.Live.Truncate
import NetScanner.Progress.Tracker

/-!
# One frame of the status line

`writeStatus` and `Live.render` of `src/core/live.zig`, with `Tracker.snapshot` of
`src/core/progress.zig`: the text is written into a buffer that may be too small for it, and what is
in the buffer is cut to the width of the terminal.

`status_line_drawn` says what is drawn: a start of the text, as long as both allow, and whole
characters but for a buffer that ends inside of one on a terminal no narrower than it.
-/

namespace NetScanner.Progress

/-- A tracker at one moment. -/
structure Snapshot where
  phase : Option Phase := none
  done : Nat := 0
  total : Nat := 0
  found : Nat := 0
deriving DecidableEq, Repr

def Tracker.snapshot (t : Tracker) : Snapshot where
  phase := t.phase
  done := min t.done t.total
  total := t.total
  found := t.found

/-- Whole percentage finished; none when the phase has no size. -/
def Snapshot.percent (s : Snapshot) : Option Nat :=
  if s.total = 0 then none else some (s.done * 100 / s.total)

end NetScanner.Progress

namespace NetScanner.Live

open Infra Infra.Json Progress

/-! ## A writer into a buffer -/

/-- `std.Io.Writer.fixed`. -/
structure FixedWriter where
  size : Nat
  buffered : Bytes := []
  fits : buffered.length ≤ size

namespace FixedWriter

def ofSize (size : Nat) : FixedWriter where
  size := size
  fits := Nat.zero_le _

/-- What fits is written; the error is a writer with a full buffer. -/
def write (w : FixedWriter) (piece : Bytes) : Except FixedWriter FixedWriter :=
  let w' : FixedWriter :=
    { size := w.size
      buffered := (w.buffered ++ piece).take w.size
      fits := List.length_take_le _ _ }
  if w.buffered.length + piece.length ≤ w.size then .ok w' else .error w'

/-- The texts and arguments of one `print`, one after the other. -/
def print (w : FixedWriter) : List Bytes → Except FixedWriter FixedWriter
  | [] => .ok w
  | piece :: rest => (w.write piece).bind fun w' => w'.print rest

end FixedWriter

/-- What is in the buffer, whether or not something failed. -/
def bufferedOf : Except FixedWriter FixedWriter → Bytes
  | .ok w => w.buffered
  | .error w => w.buffered

/-! ## The text -/

/-- The characters the line is drawn with. -/
structure Glyphs where
  spinner : List Bytes
  ellipsis : Bytes
  separator : Bytes
  spins : spinner ≠ []

namespace Glyphs

def unicode : Glyphs where
  spinner := ['⠋', '⠙', '⠹', '⠸', '⠼', '⠴', '⠦', '⠧', '⠇', '⠏'].map fun c => utf8 [c]
  ellipsis := utf8 ['…']
  separator := utf8 ['·']
  spins := by simp

def ascii : Glyphs where
  spinner := ['|', '/', '-', '\\'].map fun c => utf8 [c]
  ellipsis := utf8 ['.', '.', '.']
  separator := utf8 ['-']
  spins := by simp

/-- `g.spinner[frame % g.spinner.len]`. -/
def frameOf (g : Glyphs) (frame : Nat) : Bytes :=
  g.spinner.get ⟨frame % g.spinner.length, Nat.mod_lt _ (List.length_pos_of_ne_nil g.spins)⟩

end Glyphs

structure Noun where
  one : Bytes
  many : Bytes

/-- What one frame of the status line is made of. -/
structure Status where
  label : Bytes
  noun : Noun
  progress : Snapshot := {}
  /-- Ctrl+C was pressed. -/
  stopping : Bool := false

def Status.found (s : Status) : List Bytes :=
  [ascii " ", writeNat s.progress.found, ascii " ",
    if s.progress.found = 1 then s.noun.one else s.noun.many]

def writePercent (w : FixedWriter) (g : Glyphs) (s : Status) : Except FixedWriter FixedWriter :=
  match s.progress.percent with
  | some percent => w.print [ascii " ", writeNat percent, ascii "% ", g.separator]
  | none => .ok w

/-- The phases that probe. -/
def writeProbing (w : FixedWriter) (g : Glyphs) (spinner label : Bytes) (s : Status) :
    Except FixedWriter FixedWriter := do
  let w ← w.print [spinner, ascii " ", label, g.ellipsis]
  let w ← writePercent w g s
  w.print s.found

def writeStatus (w : FixedWriter) (g : Glyphs) (frame : Nat) (s : Status) :
    Except FixedWriter FixedWriter :=
  let spinner := g.frameOf frame
  if s.stopping then
    w.print [spinner, ascii " Stopping", g.ellipsis,
      ascii " finishing probes in flight (Ctrl+C again to quit now)"]
  else
    match s.progress.phase.getD .sweep with
    | .identify =>
      w.print [spinner, ascii " Identifying devices", g.ellipsis, ascii " ",
        writeNat s.progress.done, ascii " of ", writeNat s.progress.total]
    | .arp => writeProbing w g spinner (ascii "Checking ARP table") s
    | _ => writeProbing w g spinner s.label s

/-- `render`, up to `setName`, with a buffer of `size` bytes: none where it would read past it. -/
def render (size : Nat) (columns : Option Nat) (g : Glyphs) (frame : Nat) (s : Status) :
    Checked Bytes :=
  truncateUtf8 (bufferedOf (writeStatus (.ofSize size) g frame s)) (columns.getD size)

/-! ## The text as a whole -/

def probingText (g : Glyphs) (spinner label : Bytes) (s : Status) : Bytes :=
  [spinner, ascii " ", label, g.ellipsis].flatten ++
    ((match s.progress.percent with
      | some percent => [ascii " ", writeNat percent, ascii "% ", g.separator].flatten
      | none => []) ++ s.found.flatten)

/-- What a buffer without an end would hold. -/
def statusText (g : Glyphs) (frame : Nat) (s : Status) : Bytes :=
  let spinner := g.frameOf frame
  if s.stopping then
    [spinner, ascii " Stopping", g.ellipsis,
      ascii " finishing probes in flight (Ctrl+C again to quit now)"].flatten
  else
    match s.progress.phase.getD .sweep with
    | .identify =>
      [spinner, ascii " Identifying devices", g.ellipsis, ascii " ",
        writeNat s.progress.done, ascii " of ", writeNat s.progress.total].flatten
    | .arp => probingText g spinner (ascii "Checking ARP table") s
    | _ => probingText g spinner s.label s

section Wrote

variable {size : Nat} {text more : Bytes} {w : FixedWriter} {r : Except FixedWriter FixedWriter}

/-- The text was written, or as much of it as there was room for. -/
def Wrote (size : Nat) (text : Bytes) : Except FixedWriter FixedWriter → Prop
  | .ok w => w.size = size ∧ w.buffered = text
  | .error w => w.buffered = text.take size ∧ size ≤ text.length

theorem Wrote.buffered (h : Wrote size text r) : bufferedOf r = text.take size := by
  cases r with
  | ok w =>
    obtain ⟨hsize, htext⟩ := h
    have hfits := w.fits
    rw [hsize, htext] at hfits
    rw [bufferedOf, htext, List.take_of_length_le hfits]
  | error w => exact h.1

/-- Nothing is written behind an error. -/
theorem Wrote.bind (h : Wrote size text r) {f : FixedWriter → Except FixedWriter FixedWriter}
    (hf : ∀ w, w.size = size → w.buffered = text → Wrote size (text ++ more) (f w)) :
    Wrote size (text ++ more) (r.bind f) := by
  cases r with
  | ok w => exact hf w h.1 h.2
  | error w =>
    refine ⟨?_, ?_⟩
    · rw [h.1, List.take_append_of_le_length h.2]
    · rw [List.length_append]
      exact Nat.le_add_right_of_le h.2

theorem wrote_write (w : FixedWriter) (piece : Bytes) :
    Wrote w.size (w.buffered ++ piece) (w.write piece) := by
  unfold FixedWriter.write
  split
  · next hfits =>
    refine ⟨rfl, List.take_of_length_le ?_⟩
    rw [List.length_append]
    exact hfits
  · next hfull =>
    refine ⟨rfl, ?_⟩
    rw [List.length_append]
    omega

theorem wrote_print (pieces : List Bytes) (hsize : w.size = size) (htext : w.buffered = text) :
    Wrote size (text ++ pieces.flatten) (w.print pieces) := by
  induction pieces generalizing w text with
  | nil => exact ⟨hsize, by rw [htext, List.flatten_nil, List.append_nil]⟩
  | cons piece rest ih =>
    have hpiece := wrote_write w piece
    rw [hsize, htext] at hpiece
    rw [FixedWriter.print, List.flatten_cons, ← List.append_assoc]
    exact hpiece.bind fun w' hsize' htext' => ih hsize' htext'

theorem wrote_probing (w : FixedWriter) (g : Glyphs) (spinner label : Bytes) (s : Status) :
    Wrote w.size (w.buffered ++ probingText g spinner label s)
      (writeProbing w g spinner label s) := by
  unfold probingText
  rw [← List.append_assoc]
  refine (wrote_print _ rfl rfl).bind fun w₁ hsize₁ htext₁ => ?_
  rw [← List.append_assoc]
  refine Wrote.bind ?_ fun w₂ hsize₂ htext₂ => wrote_print _ hsize₂ htext₂
  unfold writePercent
  split
  · exact wrote_print _ hsize₁ htext₁
  · exact ⟨hsize₁, by rw [htext₁, List.append_nil]⟩

/-- **The buffer holds a start of the text.** -/
theorem wrote_status (w : FixedWriter) (g : Glyphs) (frame : Nat) (s : Status) :
    Wrote w.size (w.buffered ++ statusText g frame s) (writeStatus w g frame s) := by
  unfold writeStatus statusText
  dsimp only
  split
  · exact wrote_print _ rfl rfl
  · split
    · exact wrote_print _ rfl rfl
    · exact wrote_probing w g _ _ s
    · exact wrote_probing w g _ _ s

end Wrote

/-! ## The cut -/

/-- The loop does not read behind where it starts. -/
theorem backUp_take {line : Bytes} {n size : Nat} (h : n < size) :
    backUp (line.take size) n = backUp line n := by
  induction n with
  | zero => rfl
  | succ n ih =>
    have hget : Checked.get (line.take size) (n + 1) = Checked.get line (n + 1) :=
      List.getElem?_take_of_lt h
    rw [backUp, backUp, hget, ih (Nat.lt_of_succ_lt h)]

theorem backUp_le {line : Bytes} {n stop : Nat} (h : backUp line n = some stop) : stop ≤ n := by
  induction n with
  | zero =>
    cases h
    exact Nat.le_refl _
  | succ n ih =>
    obtain ⟨b, _, h⟩ := Option.bind_eq_some_iff.mp h
    split at h
    · exact Nat.le_succ_of_le (ih h)
    · cases h
      exact Nat.le_refl _

/-- A terminal narrower than the buffer cuts what is in it as it would cut the whole line. -/
theorem truncateUtf8_take {line : Bytes} {size width : Nat} (h : width < size) :
    truncateUtf8 (line.take size) width = truncateUtf8 line width := by
  unfold truncateUtf8
  by_cases hfits : line.length ≤ width
  · have hall : line.take size = line := List.take_of_length_le (by omega)
    rw [hall]
  · have hlong : ¬(line.take size).length ≤ width := by
      rw [List.length_take]
      omega
    rw [if_neg hlong, if_neg hfits, backUp_take h]
    cases hstop : backUp line width with
    | none => rfl
    | some stop =>
      have hle : stop ≤ width := backUp_le hstop
      show Checked.window (line.take size) 0 stop = Checked.window line 0 stop
      rw [Checked.window_eq (Nat.zero_le _) (by rw [List.length_take]; omega),
        Checked.window_eq (Nat.zero_le _) (by omega)]
      simp only [slice, List.drop_zero, Nat.sub_zero, List.take_take]
      rw [Nat.min_eq_left (by omega)]

/-! ## What is drawn -/

/-- The texts a frame is made of are whole characters. -/
structure Status.Readable (g : Glyphs) (s : Status) : Prop where
  spinner : ∀ glyph ∈ g.spinner, IsUtf8 glyph
  ellipsis : IsUtf8 g.ellipsis
  separator : IsUtf8 g.separator
  label : IsUtf8 s.label
  one : IsUtf8 s.noun.one
  many : IsUtf8 s.noun.many

theorem isUtf8_found {g : Glyphs} {s : Status} (h : s.Readable g) : IsUtf8 s.found.flatten := by
  refine isUtf8_flatten ?_
  have hspace : IsUtf8 (ascii " ") := isUtf8_of_all (by decide)
  have hnoun : IsUtf8 (if s.progress.found = 1 then s.noun.one else s.noun.many) := by
    split
    · exact h.one
    · exact h.many
  simp only [Status.found, List.forall_mem_cons, List.not_mem_nil, IsEmpty.forall_iff, implies_true,
    and_true]
  exact ⟨hspace, isUtf8_writeNat _, hspace, hnoun⟩

theorem isUtf8_probingText {g : Glyphs} {s : Status} (h : s.Readable g) {spinner label : Bytes}
    (hspinner : IsUtf8 spinner) (hlabel : IsUtf8 label) :
    IsUtf8 (probingText g spinner label s) := by
  have hspace : IsUtf8 (ascii " ") := isUtf8_of_all (by decide)
  refine isUtf8_append ?_ (isUtf8_append ?_ (isUtf8_found h))
  · simpa using isUtf8_append hspinner
      (isUtf8_append hspace (isUtf8_append hlabel h.ellipsis))
  · split
    · next percent _ =>
      have hsign : IsUtf8 (ascii "% ") := isUtf8_of_all (by decide)
      simpa using isUtf8_append hspace
        (isUtf8_append (isUtf8_writeNat percent) (isUtf8_append hsign h.separator))
    · exact isUtf8_nil

theorem isUtf8_statusText {g : Glyphs} {s : Status} (h : s.Readable g) (frame : Nat) :
    IsUtf8 (statusText g frame s) := by
  have hspinner : IsUtf8 (g.frameOf frame) := h.spinner _ (List.get_mem _ _)
  unfold statusText
  dsimp only
  split
  · have hstopping : IsUtf8 (ascii " Stopping") := isUtf8_of_all (by decide)
    have hrest : IsUtf8 (ascii " finishing probes in flight (Ctrl+C again to quit now)") :=
      isUtf8_of_all (by decide)
    simpa using isUtf8_append hspinner (isUtf8_append hstopping (isUtf8_append h.ellipsis hrest))
  · split
    · have hidentifying : IsUtf8 (ascii " Identifying devices") :=
        isUtf8_of_all (by decide)
      have hspace : IsUtf8 (ascii " ") := isUtf8_of_all (by decide)
      have hof : IsUtf8 (ascii " of ") := isUtf8_of_all (by decide)
      simpa using isUtf8_append hspinner (isUtf8_append hidentifying (isUtf8_append h.ellipsis
        (isUtf8_append hspace (isUtf8_append (isUtf8_writeNat _) (isUtf8_append hof
          (isUtf8_writeNat _))))))
    · exact isUtf8_probingText h hspinner (isUtf8_of_all (by decide))
    · exact isUtf8_probingText h hspinner h.label

/-- What is drawn of a text, through a buffer of `size` bytes, on a terminal of `width` columns. -/
structure Drawn (text : Bytes) (size width : Nat) (drawn : Bytes) : Prop where
  start : drawn <+: text
  fits : drawn.length ≤ min size width
  /-- No start of the text that fits and splits no character is longer. -/
  longest : ∀ other, WholeCut text (min size width) other → other <+: drawn
  /-- A character that the buffer cut is repaired on a terminal narrower than the buffer. -/
  whole : IsUtf8 drawn ↔ width < size ∨ text.length ≤ size ∨ IsUtf8 (text.take size)

/--
**The status line is cut as late as it can be.**

For every frame, buffer and terminal: what is drawn is a start of the text, at least as long as the
longest one of whole characters that fits; and it ends in half a character just when the buffer ends
inside of one and the terminal is at least as wide as the buffer.
-/
theorem status_line_drawn {g : Glyphs} {s : Status} (h : s.Readable g) (frame size : Nat)
    (columns : Option Nat) : ∃ drawn, render size columns g frame s = some drawn ∧
      Drawn (statusText g frame s) size (columns.getD size) drawn := by
  have htext := isUtf8_statusText h frame
  have hbuffered : bufferedOf (writeStatus (.ofSize size) g frame s) =
      (statusText g frame s).take size :=
    (wrote_status (.ofSize size) g frame s).buffered
  unfold render
  rw [hbuffered]
  generalize statusText g frame s = text at *
  generalize columns.getD size = width
  by_cases hnarrow : width < size
  · obtain ⟨cut, hcut, hwhole, hlongest⟩ := truncateUtf8_cut htext width
    rw [truncateUtf8_take hnarrow]
    refine ⟨cut, hcut, hwhole.start, ?_, ?_, fun _ => .inl hnarrow, fun _ => hwhole.whole⟩
    · exact Nat.le_min.mpr ⟨by have := hwhole.fits; omega, hwhole.fits⟩
    · intro other hother
      exact hlongest other
        ⟨hother.start, Nat.le_trans hother.fits (Nat.min_le_right _ _), hother.whole⟩
  · have hwide : size ≤ width := Nat.not_lt.mp hnarrow
    have hlen : (text.take size).length ≤ size := List.length_take_le _ _
    refine ⟨text.take size, if_pos (Nat.le_trans hlen hwide), List.take_prefix _ _, ?_, ?_,
      fun hutf8 => .inr (.inr hutf8), ?_⟩
    · exact Nat.le_min.mpr ⟨hlen, Nat.le_trans hlen hwide⟩
    · intro other hother
      have hfits := Nat.le_trans hother.fits (Nat.min_le_left _ _)
      rw [List.prefix_iff_eq_take.mp hother.start]
      exact List.take_prefix_take_left hfits
    · rintro (hlt | hshort | hutf8)
      · exact absurd hlt hnarrow
      · rw [List.take_of_length_le hshort]
        exact htext
      · exact hutf8

def halfLine : Status where
  label := ascii "Scanning 192.168.100.128/25"
  noun := ⟨ascii "host found", ascii "hosts found"⟩
  progress := ({ phase := some .sweep, done := 53, total := 126, found := 7 } : Snapshot)

/-- The separator is cut on a terminal of 80 columns, if the buffer has 40 bytes. -/
theorem status_line_drawn_half : ∃ drawn, render 40 (some 80) .unicode 2 halfLine = some drawn ∧
    Drawn (statusText .unicode 2 halfLine) 40 80 drawn ∧ ¬ IsUtf8 drawn := by
  have hspinner : ∀ glyph ∈ Glyphs.unicode.spinner, IsUtf8 glyph := by
    intro glyph hglyph
    obtain ⟨c, _, rfl⟩ := List.mem_map.mp hglyph
    exact isUtf8_utf8 [c]
  have hreadable : halfLine.Readable .unicode :=
    ⟨hspinner, isUtf8_utf8 _, isUtf8_utf8 _, isUtf8_of_all (by decide),
      isUtf8_of_all (by decide), isUtf8_of_all (by decide)⟩
  obtain ⟨drawn, hrender, hdrawn⟩ := status_line_drawn hreadable 2 40 (some 80)
  refine ⟨drawn, hrender, hdrawn, fun hutf8 => ?_⟩
  have hlong : 40 < (statusText .unicode 2 halfLine).length := by decide
  have hbyte : (statusText .unicode 2 halfLine)[40] = 0xB7 :=
    Option.some.inj ((List.getElem?_eq_getElem hlong).symm.trans (by decide))
  have hcut := isUtf8_take_iff (isUtf8_statusText hreadable 2) hlong
  rw [hbyte] at hcut
  rcases hdrawn.whole.mp hutf8 with hnarrow | hshort | hwhole
  · exact absurd hnarrow (by decide)
  · exact absurd hlong (Nat.not_lt.mpr hshort)
  · exact absurd (hcut.mp hwhole) (by decide)

end NetScanner.Live
