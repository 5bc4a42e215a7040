import NetScanner.Hosts.Found
import NetScanner.Connects.Once

/-!
# `scanNetwork` as a whole

`src/core/scanner.zig`: a subnet scan from its start to its results, with everything that runs at
the same time: the TCP sweep (`connects.run` asks for addresses and reports verdicts), the
multicast listener, the ARP harvest with its pings, and on Windows the `SendARP` workers.

The main thread is at a `Stage`; the listener and the workers have stages of their own. A step
is one critical section of one thread, and calls `reportHost` at most once (`Move`). What the
machine and the network answer is in the label: whether a stop was requested, what was received,
whether there is memory. `Run.advance` is two more steps, of whichever thread has to make them
(`count`, `claim`).

The queries the listener sends out, and the `identify` phase of the results, are not in the model.
-/

namespace NetScanner.Hosts

open Connects Infra Names Neighbors Net Progress

def tcpProbePort : Nat := 80
def connectTimeoutMs : Nat := 500

/-- The connect that probes a host. -/
def hostProbe (ip : Ip) : Target where
  ip := ip
  port := tcpProbePort
  timeoutMs := connectTimeoutMs

/-- `next` of the sweep: the next address, and where the one after it is. -/
def sweepNext (ips : List Ip) (index : Nat) (stop : Bool) : Option Target × Nat :=
  match ips[index]? with
  | none => (none, index)
  | some ip => if stop then (none, index) else (some (hostProbe ip), index + 1)

/-! ## The threads -/

/-- Where the multicast listener is. -/
inductive Listener where
  /-- There is none. -/
  | off
  /-- At the head of its loop. -/
  | head
  /-- In `recv`. -/
  | receiving
  /-- About to report the sender of a reply. -/
  | heard («from» : Ip) (kind : Kind) (data : Bytes)
  /-- About to keep its name. -/
  | naming («from» : Ip) (data : Bytes)
  | ended
deriving DecidableEq, Repr

/-- Where a `SendARP` worker is. -/
inductive ArpWorker where
  /-- At the head of its loop. -/
  | head
  /-- In `SendARP`. -/
  | asking (ip : Ip)
  /-- About to report a host that answered. -/
  | reporting (ip : Ip)
  | ended
deriving DecidableEq, Repr

/-- Where the main thread is. -/
inductive Stage where
  /-- About to list the addresses. -/
  | begin
  /-- About to start the listener. -/
  | listen
  /-- About to read the neighbor table for the first time. -/
  | readBefore
  /-- In `sweepHosts`: the next address, the probes that are out, and whether `next` has said that
  there are no more. -/
  | sweep (index : Nat) (out : Multiset Target) (dry : Bool)
  /-- At the start of `harvestArp`. -/
  | harvest
  /-- About to read the neighbor table again. -/
  | readAfter
  /-- At the head of the loop over the table. -/
  | entries (table rest : List Neighbor) (candidates : List Ip)
  /-- `isFound` did not know this entry's address. -/
  | entry (table : List Neighbor) (entry : Neighbor) (rest : List Neighbor) (candidates : List Ip)
  /-- In `pingSweep`: the candidates whose fate is not known, and which have answered. -/
  | ping (candidates : List Ip) (waiting : List Nat) (alive : Nat → Bool)
  /-- Waiting for the `SendARP` workers, who take their targets in order. -/
  | sendArp (targets : List Ip) (next : Nat) (workers : List ArpWorker)
  /-- About to stop the listener. -/
  | finish
  /-- Waiting for it. -/
  | join
  /-- About to print the results. -/
  | results
  | returned (lines : List ResultLine)
  /-- `error.OutOfMemory` -/
  | failed

/-- A scan under way. -/
structure Scan extends Discovery where
  stage : Stage := .begin
  listener : Listener := .off
  /-- `MulticastListener.stop` -/
  stop : Bool := false
  knownBefore : Option (List Neighbor) := none
  /-- The finished units still to be counted, and the counts that may have to be printed. -/
  uncounted : Nat := 0
  unclaimed : Nat := 0

/-- How `recv` came back. -/
inductive Received where
  | datagram («from» : Ip) (data : Bytes)
  | nothing
  | failed

/-- What the listener meets at one step. -/
structure ListenerEnv where
  stopRequested : Bool := false
  received : Received := .nothing
  stored : Bool := true
  /-- What the buffers of `hostName` hold at first. -/
  nameBuf : Buffer := Vector.replicate 256 0
  ownerBuf : Buffer := Vector.replicate 256 0

/-- What a `SendARP` worker meets at one step. -/
structure WorkerEnv where
  stopRequested : Bool := false
  mac : Option Mac := none
  recorded : Bool := true
  stored : Bool := true

/-- What the main thread meets at one step. -/
structure MainEnv where
  stopRequested : Bool := false
  /-- Whether there is memory for what the step allocates. -/
  stored : Bool := true
  /-- Whether there is memory for one more MAC. -/
  recorded : Bool := true
  /-- Whether the subnet is attached, and the listener could be started. -/
  listening : Bool := true
  /-- What `readNeighbors` returns. -/
  table : Option (List Neighbor) := none
  /-- Whether `connects.run` or `pingSweep` failed. -/
  failed : Bool := false
  /-- Which of the unanswered candidates there is memory for, and how many workers start. -/
  kept : Nat → Bool := fun _ => true
  spawned : Nat := 8
  lookups : Lookups := {}

/-- Who moves. -/
inductive ScanLabel where
  | main (env : MainEnv)
  | listener (env : ListenerEnv)
  /-- `connects.run` asks for an address. -/
  | next (stop : Bool)
  /-- It reports a verdict. -/
  | verdict (probe : Target) (outcome : Outcome) (stored : Bool)
  /-- `pingSweep` knows the fate of a candidate. -/
  | pinged (index : Nat) (answered stored : Bool)
  | worker (i : Nat) (env : WorkerEnv)
  /-- The first half of `Run.advance`, without a lock. -/
  | count
  /-- The other half, behind the output lock. -/
  | claim

/-- A step, and the call of `reportHost` in it. -/
structure Move where
  report : Option Report := none
  scan : Scan

/-- What a reply of each kind proves its sender by. -/
def replySource : Kind → HostSource
  | .mdns => .mdns
  | .ssdp => .ssdp

/-- The addresses the TCP sweep probes. -/
def SubnetScan.targets (o : SubnetScan) : List Ip := collectIps o.hosts.start o.hosts.end

/-- The candidates that no ping answered, as far as there is memory for them. -/
def unconfirmed (candidates : List Ip) (alive kept : Nat → Bool) : List Ip :=
  candidates.zipIdx.filterMap fun (ip, i) => if !alive i && kept i then some ip else none

namespace Scan

variable (o : SubnetScan) (s : Scan)

/-! ## The multicast listener -/

def listenerMove (env : ListenerEnv) : Option Move :=
  match s.listener with
  | .off => none
  | .head =>
    some { scan := { s with
      listener := if s.stop ∨ env.stopRequested then .ended else .receiving } }
  | .receiving =>
    match env.received with
    | .failed => some { scan := { s with listener := .ended } }
    | .nothing => some { scan := { s with listener := .head } }
    | .datagram «from» data =>
      if o.usable «from» = false then some { scan := { s with listener := .head } }
      else
        match classify data with
        | none => some { scan := { s with listener := .head } }
        | some kind => some { scan := { s with listener := .heard «from» kind data } }
  | .heard «from» kind data =>
    some {
      report := some { ip := «from», source := replySource kind, stored := env.stored }
      scan := { s with
        listener := match kind with
          | .mdns => .naming «from» data
          | .ssdp => .head } }
  | .naming «from» data =>
    match hostName data «from» env.nameBuf env.ownerBuf with
    | none => some { scan := { s with listener := .head } }
    | some name =>
      some { scan := { s with
        toDiscovery := s.putName «from» name env.stored
        listener := .head } }
  | .ended => none

/-! ## The TCP sweep -/

def nextMove (stop : Bool) : Option Move :=
  match s.stage with
  | .sweep index out dry =>
    match sweepNext o.targets index stop with
    | (none, index) => some { scan := { s with stage := .sweep index out true } }
    | (some probe, index) => some { scan := { s with stage := .sweep index (probe ::ₘ out) dry } }
  | _ => none

def verdictMove (probe : Target) (outcome : Outcome) (stored : Bool) : Option Move :=
  match s.stage with
  | .sweep index out dry =>
    if probe ∈ out then
      some {
        report := if outcome ≠ .filtered then
            some { ip := probe.ip, source := .tcp, stored := stored }
          else none
        scan := { s with
          stage := .sweep index (out.erase probe) dry
          uncounted := s.uncounted + 1 } }
    else none
  | _ => none

/-! ## Confirming candidates -/

/-- `Confirm.pinged` -/
def pingedMove (index : Nat) (answered stored : Bool) : Option Move :=
  match s.stage with
  | .ping candidates waiting alive =>
    if index ∈ waiting then
      some {
        report := if answered then
            candidates[index]?.map fun ip => { ip := ip, source := .arp, stored := stored }
          else none
        scan := { s with
          stage := .ping candidates (waiting.erase index) (Function.update alive index answered)
          uncounted := if answered ∨ o.windows = false then s.uncounted + 1 else s.uncounted } }
    else none
  | _ => none

def workerMove (i : Nat) (env : WorkerEnv) : Option Move :=
  match s.stage with
  | .sendArp targets next workers =>
    match workers[i]? with
    | none => none
    | some .head =>
      if env.stopRequested then
        some { scan := { s with stage := .sendArp targets next (workers.set i .ended) } }
      else
        match targets[next]? with
        | none => some { scan := { s with
            stage := .sendArp targets (next + 1) (workers.set i .ended) } }
        | some ip => some { scan := { s with
            stage := .sendArp targets (next + 1) (workers.set i (.asking ip)) } }
    | some (.asking ip) =>
      match env.mac with
      | none =>
        some { scan := { s with
          stage := .sendArp targets next (workers.set i .head)
          uncounted := s.uncounted + 1 } }
      | some mac =>
        some { scan := { s with
          toDiscovery := s.recordMac ip mac env.recorded
          stage := .sendArp targets next (workers.set i (.reporting ip)) } }
    | some (.reporting ip) =>
      some {
        report := some { ip := ip, source := .arp, stored := env.stored }
        scan := { s with
          stage := .sendArp targets next (workers.set i .head)
          uncounted := s.uncounted + 1 } }
    | some .ended => none
  | _ => none

/-! ## The main thread -/

def startPhase (phase : Phase) (total : Nat) : Scan :=
  { s with tracker := s.tracker.startPhase phase total }

/-- One entry of the table: its MAC is kept, and it is passed over when it is out of range or its
host is known. -/
def entryMove (env : MainEnv) (table : List Neighbor) (entry : Neighbor) (rest : List Neighbor)
    (candidates : List Ip) : Scan :=
  let s := match entry.mac with
    | none => s
    | some mac => { s with toDiscovery := s.recordMac entry.ip mac env.recorded }
  if o.usable entry.ip = false ∨ s.isFound entry.ip then
    { s with stage := .entries table rest candidates }
  else { s with stage := .entry table entry rest candidates }

/-- An entry confirmed just now is reported; any other is a candidate for a ping. -/
def splitMove (env : MainEnv) (table : List Neighbor) (entry : Neighbor) (rest : List Neighbor)
    (candidates : List Ip) : Move :=
  if entry.state = .reachable ∨
      resolvedDuringScan s.knownBefore table entry o.hosts.start o.hosts.end then
    { report := some { ip := entry.ip, source := .arp, stored := env.stored }
      scan := { s with stage := .entries table rest candidates } }
  else if containsIp candidates entry.ip ∨ env.stored = false then
    { scan := { s with stage := .entries table rest candidates } }
  else { scan := { s with stage := .entries table rest (candidates ++ [entry.ip]) } }

/-- After the pings: on Windows, whoever did not answer is asked for its MAC. -/
def pingedAll (env : MainEnv) (candidates : List Ip) (alive : Nat → Bool) : Scan :=
  let targets := unconfirmed candidates alive env.kept
  if env.failed ∨ o.windows = false ∨ targets = [] then { s with stage := .finish }
  else
    -- with no thread to be had, the main thread does the work
    let count := max 1 (min env.spawned (min targets.length 8))
    { s with stage := .sendArp targets 0 (List.replicate count .head) }

/-- Whether every unit of the phase was counted. -/
def counted : Prop := s.uncounted = 0 ∧ s.unclaimed = 0

instance : Decidable s.counted := inferInstanceAs (Decidable (_ ∧ _))

def mainMove (env : MainEnv) : Option Move :=
  match s.stage with
  | .begin => some { scan := { s with stage := if env.stored then .listen else .failed } }
  | .listen =>
    some { scan := { s with
      listener := if env.listening then .head else .off
      stage := .readBefore } }
  | .readBefore =>
    some { scan := { s.startPhase .sweep o.targets.length with
      knownBefore := env.table
      stage := .sweep 0 0 false } }
  | .sweep _ out dry =>
    if s.counted ∧ (env.failed ∨ out = 0 ∧ dry = true) then
      some { scan := { s with stage := .harvest } }
    else none
  | .harvest => some { scan := { s.startPhase .arp 0 with stage := .readAfter } }
  | .readAfter =>
    match env.table with
    | none => some { scan := { s with stage := .finish } }
    | some table => some { scan := { s with stage := .entries table table [] } }
  | .entries table (entry :: rest) candidates =>
    some { scan := s.entryMove o env table entry rest candidates }
  | .entries _ [] candidates =>
    if candidates = [] ∨ env.stopRequested then some { scan := { s with stage := .finish } }
    else
      some { scan := { s.startPhase .arp candidates.length with
        stage := .ping candidates (List.range candidates.length) fun _ => false } }
  | .entry table entry rest candidates => some (s.splitMove o env table entry rest candidates)
  | .ping candidates waiting alive =>
    if s.counted ∧ (env.failed ∨ env.stopRequested ∨ waiting = []) then
      some { scan := s.pingedAll o env candidates alive }
    else none
  | .sendArp _ _ workers =>
    if s.counted ∧ ∀ w ∈ workers, w = .ended then some { scan := { s with stage := .finish } }
    else none
  | .finish =>
    some { scan := match s.listener with
      | .off => { s with stage := .results }
      | _ => { s with stop := true, stage := .join } }
  | .join => if s.listener = .ended then some { scan := { s with stage := .results } } else none
  | .results =>
    let (d, lines) := reportResults s.toDiscovery o env.lookups env.stored
    some { scan := { s with toDiscovery := d, stage := .returned lines } }
  | .returned _ => none
  | .failed => none

/-! ## Counting -/

def countMove : Option Move :=
  match s.uncounted with
  | 0 => none
  | uncounted + 1 =>
    let (due, tracker) := s.tracker.advance
    some { scan := { s with
      tracker := tracker
      uncounted := uncounted
      unclaimed := if due ∧ o.output.events then s.unclaimed + 1 else s.unclaimed } }

def claimMove : Option Move :=
  match s.unclaimed with
  | 0 => none
  | unclaimed + 1 =>
    let (printed, tracker) := claimAndPrint s.tracker
    some { scan := { s with
      tracker := tracker
      events := s.events ++ printed.map .progress
      unclaimed := unclaimed } }

/-! ## Every step -/

def move : ScanLabel → Option Move
  | .main env => s.mainMove o env
  | .listener env => s.listenerMove o env
  | .next stop => s.nextMove o stop
  | .verdict probe outcome stored => s.verdictMove probe outcome stored
  | .pinged index answered stored => s.pingedMove o index answered stored
  | .worker i env => s.workerMove i env
  | .count => s.countMove o
  | .claim => s.claimMove

end Scan

/-- Make the call of `reportHost` that a step has. -/
def Move.done (o : SubnetScan) (m : Move) : Scan :=
  match m.report with
  | none => m.scan
  | some r => { m.scan with toDiscovery := m.scan.reportHost o.output.stream r }

/-- `scanNetwork` -/
def scanNetwork (o : SubnetScan) : Lts Scan ScanLabel where
  init s := s = {}
  step s l := (s.move o l).map (Move.done o)

/-! ## The calls of `connects.run`

`sweepHosts` hands `connects.run` a source whose verdicts go to the hosts found, which others
write to as well; so the source of the engine keeps the cursor alone, and every call the engine
makes on it is a step of the scan. -/

/-- The cursor of `sweepHosts`, and what the stop flag answers each time it is looked at. -/
structure Sweep where
  ips : List Ip
  cancel : Nat → Bool
  index : Nat := 0
  looks : Nat := 0

def sweepSource : Source Target Sweep where
  next sweep :=
    let (probe, index) := sweepNext sweep.ips sweep.index (sweep.cancel sweep.looks)
    -- past the end nobody looks at the flag
    let looks := if sweep.index < sweep.ips.length then sweep.looks + 1 else sweep.looks
    (probe, { sweep with index := index, looks := looks })
  done sweep _ _ _ := sweep

section Engine

variable {o : SubnetScan} {cancel : Nat → Bool}

theorem scanNetwork_next {s : Scan} {sweep sweep' : Sweep} {probe : Option Target}
    {out : Multiset Target} {dry : Bool} (hips : sweep.ips = o.targets)
    (hstage : s.stage = .sweep sweep.index out dry)
    (hnext : sweepSource.next sweep = (probe, sweep')) :
    sweep'.ips = o.targets ∧
      ∃ s', (scanNetwork o).step s (.next (sweep.cancel sweep.looks)) = some s' ∧
        s'.stage = match probe with
          | none => .sweep sweep'.index out true
          | some probe => .sweep sweep'.index (probe ::ₘ out) dry := by
  simp only [sweepSource, Prod.mk.injEq, hips] at hnext
  obtain ⟨hprobe, rfl⟩ := hnext
  refine ⟨rfl, ?_⟩
  obtain ⟨p, index, hsweep⟩ : ∃ p index,
      sweepNext o.targets sweep.index (sweep.cancel sweep.looks) = (p, index) := ⟨_, _, rfl⟩
  rw [hsweep] at hprobe
  subst hprobe
  cases p <;>
    simp [scanNetwork, Scan.move, Scan.nextMove, hstage, hsweep, Move.done]

theorem scanNetwork_verdict {s : Scan} {index : Nat} {out : Multiset Target} {probe : Target}
    {dry : Bool} (hstage : s.stage = .sweep index (probe ::ₘ out) dry) (outcome : Outcome) :
    ∃ s', (scanNetwork o).step s (.verdict probe outcome true) = some s' ∧
      s'.stage = .sweep index out dry := by
  by_cases hfiltered : outcome = .filtered <;>
    simp [scanNetwork, Scan.move, Scan.verdictMove, hstage, Move.done, hfiltered]

/-- The calls on the source of the sweep are steps of the scan. -/
theorem Serving.scan_reachable {calls : List (Call Target)} {sweep : Sweep}
    {out : Multiset Target} (h : Serving sweepSource ⟨o.targets, cancel, 0, 0⟩ calls sweep out)
    {s : Scan} (hs : (scanNetwork o).Reachable s) (hstage : s.stage = .sweep 0 0 false) :
    sweep.ips = o.targets ∧ ∃ s', (scanNetwork o).Reachable s' ∧
      s'.stage = .sweep sweep.index out (decide (Call.next none ∈ calls)) := by
  induction h with
  | start => exact ⟨rfl, s, hs, by simpa using hstage⟩
  | hand _ hnext ih =>
    obtain ⟨hips, s', hreach, hstage'⟩ := ih
    obtain ⟨hips', s'', hstep, hstage''⟩ := scanNetwork_next hips hstage' hnext
    exact ⟨hips', s'', hreach.step hstep, by simpa using hstage''⟩
  | dry _ hnext ih =>
    obtain ⟨hips, s', hreach, hstage'⟩ := ih
    obtain ⟨hips', s'', hstep, hstage''⟩ := scanNetwork_next hips hstage' hnext
    exact ⟨hips', s'', hreach.step hstep, by simpa using hstage''⟩
  | report outcome e _ ih =>
    obtain ⟨hips, s', hreach, hstage'⟩ := ih
    obtain ⟨s'', hstep, hstage''⟩ := scanNetwork_verdict (o := o) hstage' outcome
    exact ⟨hips, s'', hreach.step hstep, by simpa [sweepSource] using hstage''⟩

/-- **Wherever `connects.run` is, the scan can be**: with as many probes out as the run has
handed out and not reported. -/
theorem engine_reachable {u : Setup} {e : Engine Target Sweep u.loops}
    (h : (engine sweepSource id u ⟨o.targets, cancel, 0, 0⟩).Reachable e) {s : Scan}
    (hs : (scanNetwork o).Reachable s) (hstage : s.stage = .sweep 0 0 false) :
    ∃ s' out, (scanNetwork o).Reachable s' ∧ s'.stage =
      .sweep e.shared.source.index out (decide (Call.next none ∈ e.shared.calls)) := by
  obtain ⟨lost, hout, _⟩ := (Engine.accounted h).out
  obtain ⟨_, s', hreach, hstage'⟩ := Serving.scan_reachable hout hs hstage
  exact ⟨s', _, hreach, hstage'⟩

end Engine

end NetScanner.Hosts
