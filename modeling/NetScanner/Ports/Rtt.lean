import Mathlib.Data.Nat.Basic

/-!
# Learning how long to wait

`src/core/rtt.zig`: the smoothed round trip and its variation (RFC 6298), and the wait
derived from them. Times are microseconds, waits milliseconds.
-/

namespace NetScanner.Ports

def usPerMs : Nat := 1000

/-- What the answers seen so far taught about the round trip. -/
structure RttEstimator where
  floorMs : Nat
  headroomMs : Nat
  ceilingMs : Nat
  /-- None until the first answer. -/
  srttUs : Option Nat := none
  rttvarUs : Nat := 0
deriving DecidableEq, Repr

namespace RttEstimator

/-- Learn from one answered probe that took `rttUs`. The variation moves first, against the
old smoothed value. -/
def observe (e : RttEstimator) (rttUs : Nat) : RttEstimator :=
  match e.srttUs with
  | none => { e with srttUs := some rttUs, rttvarUs := rttUs / 2 }
  | some srtt =>
    let deviation := if rttUs < srtt then srtt - rttUs else rttUs - srtt
    { e with
      rttvarUs := (3 * e.rttvarUs + deviation) / 4
      srttUs := some ((7 * srtt + rttUs) / 8) }

/-- How long the next probe should wait: rounded up to whole milliseconds and clamped. -/
def timeoutMs (e : RttEstimator) : Nat :=
  match e.srttUs with
  | none => e.ceilingMs
  | some srtt =>
    let headroomUs := max (4 * e.rttvarUs) (e.headroomMs * usPerMs)
    let waitMs := (srtt + headroomUs + usPerMs - 1) / usPerMs
    max e.floorMs (min waitMs e.ceilingMs)

/-! ## The estimator stays between its bounds -/

theorem observe_bounds (e : RttEstimator) (rttUs : Nat) :
    (e.observe rttUs).floorMs = e.floorMs ∧ (e.observe rttUs).ceilingMs = e.ceilingMs := by
  unfold observe
  split <;> exact ⟨rfl, rfl⟩

theorem timeoutMs_mem {e : RttEstimator} (h : e.floorMs ≤ e.ceilingMs) :
    e.floorMs ≤ e.timeoutMs ∧ e.timeoutMs ≤ e.ceilingMs := by
  unfold timeoutMs
  split
  · exact ⟨h, le_rfl⟩
  · simp only []
    omega

end RttEstimator

end NetScanner.Ports
