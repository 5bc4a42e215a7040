import NetScanner.Connects.Source
import NetScanner.Ports.Table
import NetScanner.Ports.Rtt
import NetScanner.Progress.Tracker
import Mathlib.Data.List.Sort

/-!
# `PortScan`: the source of a port scan

`src/core/scanner.zig`: the state `connects.run` pulls ports from and reports verdicts to,
first for every port of the range, then for the ports worth a second try, then, on a host
that was losing probes, for those silent on both.

What a scan meets on the way is in `Run`: the answers of the stop flag and of the
allocator, one for each time they are asked. The events a scan prints are logged in
`PortScan.events`.
-/

namespace NetScanner.Ports

open Connects Progress Net

/-- A port's wait without `--timeout`, and the most it ever waits for one try. -/
def portTimeoutMs : Nat := 500
def portTimeoutFloorMs : Nat := 100
def portTimeoutHeadroomMs : Nat := 40

/-- Least second tries answered before a scan counts its first pass as lossy. -/
def lossyMinAnswers : Nat := 1000

/-- `maxInt(u64)`: no answer yet. -/
def noAnswerUs : Nat := 2 ^ 64 - 1

/-- What a scan was started with, as far as it prints and stops. -/
structure Run where
  output : Output
  /-- What the `k`-th look at the stop flag finds. -/
  cancel : Nat → Bool
  /-- Whether the `k`-th open port finds memory. -/
  memory : Nat → Bool

/-- One port's connect, as `connects.run` carries it. -/
structure PortProbe where
  target : Target
  /-- A first try with a learned wait. -/
  deferrable : Bool
  /-- A first try sent before the host had answered anything. -/
  blind : Bool := false
deriving DecidableEq, Repr

/-- A port whose first try went unanswered, waiting for its second. -/
structure Deferred where
  port : Nat
  waitedMs : Nat
  blind : Bool := false
deriving DecidableEq, Repr

/-- What is kept of a first try for the second. -/
def PortProbe.deferral (p : PortProbe) : Deferred where
  port := p.target.port
  waitedMs := p.target.timeoutMs
  blind := p.blind

inductive ScanPass where
  | first
  | retry
  | third
deriving DecidableEq, Repr

/-- What a scan prints. -/
inductive ScanEvent where
  | port (port : Nat)
  | progress (event : ProgressEvent)
deriving DecidableEq, Repr

/-- One port scan's state. -/
structure PortScan where
  run : Run
  ip : Ip
  pass : ScanPass := .first
  /-- The next `by_rank` entry the first pass looks at. -/
  nextRanked : Nat := 0
  /-- The next port it tries once the ranked ones are through. -/
  nextPort : Nat
  start : Nat
  «end» : Nat
  fixedMs : Option Nat
  estimator : RttEstimator
  fastestAnswerUs : Nat := noAnswerUs
  openPorts : List Nat := []
  retries : List Deferred := []
  nextRetry : Nat := 0
  silentTwice : Nat := 0
  answeredTwice : Nat := 0
  nextThird : Nat := 0
  halfUnits : Nat := 0
  tracker : Tracker
  events : List ScanEvent := []
  /-- How often the stop flag was looked at. -/
  looks : Nat := 0
  /-- How many open ports asked for memory. -/
  appends : Nat := 0

namespace PortScan

/-- The scan `scanPorts` starts on `start..end`. -/
def init (run : Run) (ip : Ip) (start «end» : Nat) (timeoutMs : Option Nat) (tracker : Tracker) :
    PortScan where
  run := run
  ip := ip
  nextPort := start
  start := start
  «end» := «end»
  fixedMs := timeoutMs
  estimator :=
    { floorMs := portTimeoutFloorMs
      headroomMs := portTimeoutHeadroomMs
      ceilingMs := portTimeoutMs }
  tracker := tracker.startPhase .ports («end» + 1 - start)

/-- The number of ports of the range. -/
def total (s : PortScan) : Nat := s.end + 1 - s.start

def stopRequested (s : PortScan) : Bool × PortScan :=
  (s.run.cancel s.looks, { s with looks := s.looks + 1 })

/-! ## Handing out ports -/

/-- The ranked half of `nextFirstPort`: skip the ranked ports outside the range. -/
def skipRanked (s : PortScan) : List Nat → Option Nat × PortScan
  | [] => (none, s)
  | port :: rest =>
    let s := { s with nextRanked := s.nextRanked + 1 }
    if s.start ≤ port ∧ port ≤ s.end then (some port, s) else skipRanked s rest

/-- The unranked half: skip the ports the ranked half handed out. `rounds` is what is left
of the range. -/
def skipUnranked (t : PortTable) : Nat → PortScan → Option Nat × PortScan
  | 0, s => (none, s)
  | rounds + 1, s =>
    if s.nextPort ≤ s.end then
      let port := s.nextPort
      let s := { s with nextPort := s.nextPort + 1 }
      if t.rank port = 0 then (some port, s) else skipUnranked t rounds s
    else (none, s)

/-- The first pass's next port: the range's ranked ports, then all the rest. -/
def nextFirstPort (t : PortTable) (s : PortScan) : Option Nat × PortScan :=
  match s.skipRanked (t.byRank.drop s.nextRanked) with
  | (some port, s) => (some port, s)
  | (none, s) => skipUnranked t (s.end + 1 - s.nextPort) s

def probe (s : PortScan) (port timeoutMs : Nat) (deferrable : Bool) : PortProbe where
  target :=
    { ip := s.ip
      port := port
      timeoutMs := timeoutMs }
  deferrable := deferrable

/-- The learned wait, when the host is near and two tries of it fit in the full wait. -/
def learnedWait (s : PortScan) : Option Nat :=
  let learnedMs := s.estimator.timeoutMs
  if portTimeoutFloorMs * usPerMs < s.fastestAnswerUs ∨ portTimeoutMs < 2 * learnedMs then none
  else some learnedMs

def waitCap (s : PortScan) : Option Nat := s.learnedWait

/-- A port's first try. -/
def firstTry (s : PortScan) (port : Nat) : PortProbe :=
  match s.fixedMs with
  | some ms => s.probe port ms false
  | none =>
    if s.fastestAnswerUs = noAnswerUs then
      let blind := s.probe port portTimeoutMs false
      { blind with
        blind := true
        target := { blind.target with cutFloorMs := some portTimeoutFloorMs } }
    else
      match s.learnedWait with
      | some learnedMs => s.probe port learnedMs true
      | none => s.probe port portTimeoutMs false

/-- A port's second try: the wait learned by now, but never more than the first try left of
the full wait; a blind first try left nothing, yet still earned a second. -/
def secondTry (s : PortScan) (deferred : Deferred) : PortProbe :=
  let leftMs := if deferred.blind then portTimeoutMs else portTimeoutMs - deferred.waitedMs
  s.probe deferred.port (min s.estimator.timeoutMs leftMs) false

/-- The next port to try, or none when this pass is done or the scan was asked to stop. -/
def next (t : PortTable) (s : PortScan) : Option PortProbe × PortScan :=
  match s.stopRequested with
  | (true, s) => (none, s)
  | (false, s) =>
    match s.pass with
    | .first =>
      match s.nextFirstPort t with
      | (none, s) => (none, s)
      | (some port, s) => (some (s.firstTry port), s)
    | .retry =>
      match s.retries[s.nextRetry]? with
      | none => (none, s)
      | some deferred =>
        let s := { s with nextRetry := s.nextRetry + 1 }
        (some (s.secondTry deferred), s)
    | .third =>
      if s.silentTwice ≤ s.nextThird then (none, s)
      else
        match s.retries[s.nextThird]? with
        | none => (none, s)
        | some deferred =>
          let s := { s with nextThird := s.nextThird + 1 }
          (some (s.probe deferred.port s.estimator.timeoutMs false), s)

/-- Whether the ports silent on both tries get a third, slower one. -/
def needsThirdPass (s : PortScan) : Bool × PortScan :=
  match s.stopRequested with
  | (true, s) => (false, s)
  | (false, s) =>
    if s.silentTwice = 0 then (false, s)
    else (decide (lossyMinAnswers ≤ s.answeredTwice ∧ s.retries.length ≤ 10 * s.answeredTwice), s)

/-! ## Taking verdicts -/

/-- `Run.advance`: count one port, and print when that moves the percentage. -/
def advance (s : PortScan) : PortScan :=
  let (crossed, tracker) := s.tracker.advance
  let s := { s with tracker := tracker }
  if crossed && s.run.output.events then
    let (printed, tracker) := claimAndPrint s.tracker
    { s with tracker := tracker, events := s.events ++ printed.map .progress }
  else s

/-- Count `halves` more half ports, advancing by every whole port they complete. -/
def advanceHalves (s : PortScan) (halves : Nat) : PortScan :=
  let before := s.halfUnits
  let s := { s with halfUnits := s.halfUnits + halves }
  advance^[s.halfUnits / 2 - before / 2] s

/-- Without memory the port is dropped, with a word on stderr. -/
def recordOpen (s : PortScan) (port : Nat) : PortScan :=
  let s := if s.run.output.stream then { s with events := s.events ++ [.port port] } else s
  let s := { s with tracker := s.tracker.addFound }
  let s := if s.run.memory s.appends then { s with openPorts := s.openPorts ++ [port] } else s
  { s with appends := s.appends + 1 }

/-- Whether a probe ended before its own wait did. -/
def cutShort (p : PortProbe) (elapsedUs : Nat) : Bool :=
  decide (elapsedUs < p.target.timeoutMs * usPerMs)

/-- An answer teaches its round trip. -/
def learn (s : PortScan) (outcome : Outcome) (elapsedUs : Nat) : PortScan :=
  if outcome ≠ .filtered then
    { s with
      estimator := s.estimator.observe elapsedUs
      fastestAnswerUs := min s.fastestAnswerUs elapsedUs }
  else s

/-- Whether an unanswered try earns its port a second one. -/
def earnsRetry (s : PortScan) (p : PortProbe) (elapsedUs : Nat) : Bool :=
  p.deferrable || (p.blind && (s.learnedWait.isSome || cutShort p elapsedUs))

/-- The second pass's own bookkeeping: the ports still silent move to the front. -/
def settleRetry (s : PortScan) (p : PortProbe) (outcome : Outcome) : PortScan :=
  if s.pass = .retry then
    if outcome = .filtered then
      { s with
        retries := s.retries.set s.silentTwice {
          port := p.target.port
          waitedMs := p.target.timeoutMs }
        silentTwice := s.silentTwice + 1 }
    else { s with answeredTwice := s.answeredTwice + 1 }
  else s

/-- One port's verdict. -/
def done (s : PortScan) (p : PortProbe) (outcome : Outcome) (elapsedUs : Nat) : PortScan :=
  let s := s.learn outcome elapsedUs
  let port := p.target.port
  let s := s.settleRetry p outcome
  -- progress was full after the second pass already
  if s.pass = .third then
    if outcome = .open then s.recordOpen port else s
  else
    let halves := if s.pass = .first then 2 else 1
    match outcome with
    | .open => (s.recordOpen port).advanceHalves halves
    | .refused => s.advanceHalves halves
    | .filtered =>
      if s.earnsRetry p elapsedUs then
        let s := { s with retries := s.retries ++ [p.deferral] }
        s.advanceHalves 1
      else s.advanceHalves halves

end PortScan

/-- A port scan, as `connects.run` sees it. -/
def source (t : PortTable) : Source PortProbe PortScan where
  next := PortScan.next t
  done := PortScan.done
  waitCap := some PortScan.waitCap

/-- The scan the second pass starts from. -/
def PortScan.second (s₁ : PortScan) : PortScan := { s₁ with pass := .retry }

/-- The scan the third pass starts from. -/
def PortScan.third (s₂ : PortScan) : PortScan := { s₂.needsThirdPass.2 with pass := .third }

/-- The three passes of `scanPorts` over a table of ports: each is one run of
`connects.run` that ended well. -/
structure Passes (t : PortTable) (s₀ s₁ s₂ s₃ : PortScan)
    (calls₁ calls₂ calls₃ : List (Call PortProbe)) : Prop where
  first : Pass (source t) s₀ calls₁ s₁
  retry : Pass (source t) s₁.second calls₂ s₂
  third : if s₂.needsThirdPass.1 then Pass (source t) s₂.third calls₃ s₃
    else calls₃ = [] ∧ s₃ = s₂.needsThirdPass.2

/-- What `scanPorts` returns at the end. -/
def PortScan.result (s : PortScan) : List Nat := s.openPorts.mergeSort (· ≤ ·)

end NetScanner.Ports
