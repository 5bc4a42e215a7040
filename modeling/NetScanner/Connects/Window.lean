import NetScanner.Net.Address
import Mathlib.Data.Int.Basic

/-!
# The in-flight window

`src/core/connects.zig`: what a connect can find, how long it may wait, and how many
connects a run keeps in flight (`Window`).

Times are nanoseconds on the run's clock (`i96` in the source, `Int` here); round trips
are microseconds (`u64`, `Nat` here). Ports are `u16` in the source and `Nat` here.
-/

namespace NetScanner.Connects

open Net (Ip)

/-- What one TCP connect attempt found. -/
inductive Outcome where
  | «open»
  | refused
  | filtered
deriving DecidableEq, Repr

/-- What a connect found before a run reports it: a connect to one of the machine's own
addresses that succeeded is not yet known to have met a listener. -/
inductive Verdict where
  | «open»
  | refused
  | filtered
  | unconfirmed
deriving DecidableEq, Repr

/-- The outcome of a connect that was the only one in flight. -/
def Verdict.alone : Verdict → Outcome
  | .open => .open
  | .unconfirmed => .open
  | .refused => .refused
  | .filtered => .filtered

/-- One connect to make: where to, and how long to wait for an answer. -/
structure Target where
  ip : Ip
  port : Nat
  timeoutMs : Nat
  cutFloorMs : Option Nat := none
deriving DecidableEq, Repr

/-- How a run decides how many connects to keep in flight. -/
inductive Pace where
  | adaptive
  | fixed
  | pool
deriving DecidableEq, Repr

def nsPerMs : Int := 1000000
def nsPerUs : Int := 1000

/-- How many connects a run keeps in flight, steered by how fast the target answers. -/
structure Window where
  size : Nat
  min : Nat
  max : Nat
  fastestUs : Option Nat := none
  holdUntilNs : Int := 0
  adaptive : Bool := true
  settled : Nat := 0
  answered : Nat := 0
  lastAnswerNs : Int := 0
  dark : Bool := false
deriving DecidableEq, Repr

namespace Window

/-- How much slower than twice the fastest answer an answer may be. -/
def slackUs : Nat := 20 * 1000

/-- How long a host that answers most probes may answer none. -/
def darkNs : Int := 500 * nsPerMs

def init (min max : Nat) (pace : Pace) : Window where
  size := if pace = .fixed then max else min
  min := min
  max := if pace = .pool then min else max
  adaptive := pace = .adaptive

/-- Whether a host that answers most probes has stopped answering altogether; the first
time, the window drops to its minimum. -/
def goneDark (w : Window) (nowNs : Int) : Bool × Window :=
  if w.dark then (true, w)
  else if w.answered = 0 ∨ 2 * w.answered < w.settled then (false, w)
  else if nowNs - w.lastAnswerNs < darkNs then (false, w)
  else (true, { w with dark := true, size := w.min })

/-- What follows the overload checks of `observe`: grow by one, unless held. -/
def grow (w : Window) (nowNs : Int) : Window :=
  if nowNs < w.holdUntilNs then w else { w with size := Nat.min w.max (w.size + 1) }

/-- One connect settled at `nowNs`, after `rttUs`. -/
def observe (w : Window) (outcome : Outcome) (rttUs : Nat) (nowNs : Int) : Window :=
  if !w.adaptive then w
  else
    let w := { w with settled := w.settled + 1 }
    if outcome ≠ .filtered then
      let fastest := Nat.min (w.fastestUs.getD rttUs) rttUs
      let w := { w with
        answered := w.answered + 1
        lastAnswerNs := nowNs
        dark := false
        fastestUs := some fastest }
      if 2 * fastest + slackUs < rttUs then
        if w.holdUntilNs ≤ nowNs then
          { w with
            size := Nat.max w.min (w.size / 2)
            holdUntilNs := nowNs + rttUs * nsPerUs }
        else w
      else w.grow nowNs
    else
      match w.goneDark nowNs with
      | (true, w) => w
      | (false, w) => w.grow nowNs

end Window

end NetScanner.Connects
