import Mathlib.Data.Nat.Basic

/-!
# Counting a scan's progress

`src/core/progress.zig`: the units of a phase are counted on a `Tracker`, and a `--json`
event goes out whenever the whole percentage moves.

Counts are `Nat`. `crossesPercent` multiplies in `u64` on every target, and a phase has at
most `2^32` units (ports of a range, hosts of a subnet), so `done * 100` fits.
-/

namespace NetScanner.Progress

/-- The stages of a scan, in the order they run. -/
inductive Phase where
  | ports
  | sweep
  | arp
  | identify
deriving DecidableEq, Repr

/-- True when finishing unit `done` of `total` moves the whole percentage. -/
def crossesPercent (done total : Nat) : Bool :=
  if total = 0 ∨ done = 0 ∨ total < done then false
  else decide (done * 100 / total ≠ (done - 1) * 100 / total)

/-- One scan's progress. The `found` and `done` counters are atomics of the source. -/
structure Tracker where
  found : Nat := 0
  done : Nat := 0
  phase : Option Phase := none
  total : Nat := 0
  lastClaimed : Nat := 0
deriving DecidableEq, Repr

namespace Tracker

/-- Start a phase of `total` units. -/
def startPhase (t : Tracker) (phase : Phase) (total : Nat) : Tracker :=
  { t with phase := some phase, total := total, done := 0, lastClaimed := 0 }

/-- Record one finished unit; true when a `--json` event is due. -/
def advance (t : Tracker) : Bool × Tracker :=
  let done := t.done + 1
  (crossesPercent done t.total, { t with done := done })

/-- Count one result (a host up, an open port). -/
def addFound (t : Tracker) : Tracker := { t with found := t.found + 1 }

/-- The count to print, or none when a newer one is already out. -/
def claim (t : Tracker) : Option Nat × Tracker :=
  let done := min t.done t.total
  if done ≤ t.lastClaimed then (none, t) else (some done, { t with lastClaimed := done })

end Tracker

/-- The output switches of a scan (`Run.stream`, `Run.json`). -/
structure Output where
  stream : Bool
  json : Bool

/-- Whether `progress` events go out at all. -/
def Output.events (o : Output) : Bool := o.json && o.stream

/-- A `progress` line of `--json` output. -/
structure ProgressEvent where
  phase : Phase
  done : Nat
  total : Nat
deriving DecidableEq, Repr

/-- What the part of `Run.advance` behind the output lock prints: the newest count, if it
is not out already. -/
def claimAndPrint (t : Tracker) : List ProgressEvent × Tracker :=
  match t.claim with
  | (none, t') => ([], t')
  | (some done, t') =>
    match t'.phase with
    | none => ([], t')
    | some phase => ([{ phase := phase, done := done, total := t'.total }], t')

/-! ## Printing the newest count -/

/-- What the step behind the lock does: nothing new to print, or the newest count. -/
theorem claimAndPrint_cases {t : Tracker} {phase : Phase} (hp : t.phase = some phase) :
    (min t.done t.total ≤ t.lastClaimed ∧ claimAndPrint t = ([], t)) ∨
      (t.lastClaimed < min t.done t.total ∧
        claimAndPrint t = ([{ phase := phase, done := min t.done t.total, total := t.total }],
          { t with lastClaimed := min t.done t.total })) := by
  by_cases h : min t.done t.total ≤ t.lastClaimed
  · left
    refine ⟨h, ?_⟩
    simp [claimAndPrint, Tracker.claim, h]
  · right
    refine ⟨by omega, ?_⟩
    simp [claimAndPrint, Tracker.claim, h, hp]

/-- Printing touches nothing but the count last claimed. -/
theorem claimAndPrint_frame (t : Tracker) :
    ∃ claimed, (claimAndPrint t).2 = { t with lastClaimed := claimed } := by
  unfold claimAndPrint Tracker.claim
  by_cases h : min t.done t.total ≤ t.lastClaimed
  · exact ⟨t.lastClaimed, by simp [h]⟩
  · refine ⟨min t.done t.total, ?_⟩
    cases hp : t.phase <;> simp [h]

/-! ## Crossing a percentage -/

/-- The last unit always crosses into 100%. -/
theorem crossesPercent_total {total : Nat} (h : 1 ≤ total) : crossesPercent total total = true := by
  have hlt : (total - 1) * 100 / total < 100 := by
    rw [Nat.div_lt_iff_lt_mul (by omega)]
    omega
  have hfull : total * 100 / total = 100 := Nat.mul_div_cancel_left 100 (by omega)
  unfold crossesPercent
  rw [if_neg (by omega), hfull]
  exact decide_eq_true (by omega)

/-- A crossing lifts the whole percentage by at least one. -/
theorem percent_lt_of_crosses {done total : Nat} (h : crossesPercent (done + 1) total = true) :
    done * 100 / total < (done + 1) * 100 / total := by
  unfold crossesPercent at h
  split at h
  · simp at h
  · have hle : done * 100 / total ≤ (done + 1) * 100 / total :=
      Nat.div_le_div_right (by omega)
    have hne := of_decide_eq_true h
    rw [Nat.add_sub_cancel] at hne
    omega

/-- Nothing past the last unit crosses. -/
theorem lt_total_of_crosses {done total : Nat} (h : crossesPercent (done + 1) total = true) :
    done < total := by
  unfold crossesPercent at h
  split at h
  · simp at h
  · omega

end NetScanner.Progress
