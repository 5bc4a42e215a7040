import NetScanner.Hosts.PingOnce
import NetScanner.Hosts.Results

/-!
# `scanNetworkPing`

`src/core/scanner.zig`: the scan that pings every address of the subnet. `pingSweep` runs inside
it, and each of its calls of `observer.pinged` may be a call of `reportHost`; the neighbor table
only adds MACs. `Run.advance` is two more steps, as in `scanNetwork`.
-/

namespace NetScanner.Hosts

open Icmp Infra Neighbors Net Progress

inductive PingStage where
  /-- About to list the addresses. -/
  | begin
  | sweep
  /-- About to read the neighbor table. -/
  | neighbors
  | results
  | returned (lines : List ResultLine)
  /-- An error of `collectIps` or `pingSweep`. -/
  | failed
deriving DecidableEq, Repr

/-- A scan under way. -/
structure PingScan (o : SubnetScan) (P : Pinger o.targets.length) extends Discovery where
  stage : PingStage := .begin
  sweep : PingSweep P := {}
  uncounted : Nat := 0
  unclaimed : Nat := 0

/-- What the main thread meets at one step. -/
structure PingScanEnv where
  allocated : Bool := true
  table : Option (List Neighbor) := none
  recorded : Bool := true
  lookups : Lookups := {}

/-- Who moves. `stored` is whether there is memory for one more host. -/
inductive PingScanLabel (o : SubnetScan) (P : Pinger o.targets.length) where
  | main (env : PingScanEnv)
  | sweep (l : PingLabel P) (stored : Bool)
  | count
  | claim

/-- The call of `reportHost` in one of `observer.pinged`. -/
def pingReport (targets : List Ip) (stored : Bool) (p : Nat × Bool) : Option Report :=
  if p.2 then
    targets[p.1]?.map fun ip => { ip := ip, source := .ping, stored := stored }
  else none

namespace PingScan

variable (o : SubnetScan) {P : Pinger o.targets.length}

def mainStep (env : PingScanEnv) (s : PingScan o P) : Option (PingScan o P) :=
  match s.stage with
  | .begin =>
    if env.allocated then
      some { s with
        tracker := s.tracker.startPhase .sweep o.targets.length
        stage := .sweep }
    else some { s with stage := .failed }
  | .sweep =>
    if s.uncounted = 0 ∧ s.unclaimed = 0 then
      match s.sweep.pc with
      | .returned .alive => some { s with stage := .neighbors }
      | .returned _ => some { s with stage := .failed }
      | _ => none
    else none
  | .neighbors =>
    let entries := (env.table.getD []).filterMap fun e => e.mac.map fun mac => (e.ip, mac)
    let d := entries.foldl (fun d p => d.recordMac p.1 p.2 env.recorded) s.toDiscovery
    some { s with toDiscovery := d, stage := .results }
  | .results =>
    let (d, lines) := reportResults s.toDiscovery o env.lookups env.allocated
    some { s with toDiscovery := d, stage := .returned lines }
  | .returned _ => none
  | .failed => none

/-- The calls of `reportHost` in a step of the sweep. -/
def newReports (s : PingScan o P) (sweep : PingSweep P) (stored : Bool) : List Report :=
  (sweep.pinged.drop s.sweep.pinged.length).filterMap (pingReport o.targets stored)

def sweepStep (l : PingLabel P) (stored : Bool) (s : PingScan o P) : Option (PingScan o P) :=
  match s.stage with
  | .sweep =>
    (s.sweep.step l).map fun sweep =>
      { s with
        toDiscovery := (s.newReports o sweep stored).foldl
          (fun d r => d.reportHost o.output.stream r) s.toDiscovery
        sweep := sweep
        uncounted := s.uncounted + (sweep.pinged.length - s.sweep.pinged.length) }
  | _ => none

def countStep (s : PingScan o P) : Option (PingScan o P) :=
  match s.uncounted with
  | 0 => none
  | uncounted + 1 =>
    let (due, tracker) := s.tracker.advance
    some { s with
      tracker := tracker
      uncounted := uncounted
      unclaimed := if due ∧ o.output.events then s.unclaimed + 1 else s.unclaimed }

def claimStep (s : PingScan o P) : Option (PingScan o P) :=
  match s.unclaimed with
  | 0 => none
  | unclaimed + 1 =>
    let (printed, tracker) := claimAndPrint s.tracker
    some { s with
      tracker := tracker
      events := s.events ++ printed.map .progress
      unclaimed := unclaimed }

def step (s : PingScan o P) : PingScanLabel o P → Option (PingScan o P)
  | .main env => s.mainStep o env
  | .sweep l stored => s.sweepStep o l stored
  | .count => s.countStep o
  | .claim => s.claimStep o

end PingScan

/-- `scanNetworkPing` as a transition system. -/
def scanNetworkPing (o : SubnetScan) (P : Pinger o.targets.length) :
    Lts (PingScan o P) (PingScanLabel o P) where
  init s := s = {}
  step s l := s.step o l

/-- A watcher who notes every call of `reportHost`. -/
def notePing (o : SubnetScan) (P : Pinger o.targets.length) (reports : List Report)
    (s : PingScan o P) : PingScanLabel o P → List Report
  | .sweep l stored => reports ++ ((s.sweep.step l).map (s.newReports o · stored)).getD []
  | _ => reports

section Scanning

variable {o : SubnetScan} {P : Pinger o.targets.length}

/-! ## Steps of the sweep -/

/-- `pinged` grows by what one step reports. -/
theorem PingSweep.step_pinged {count : Nat} {P : Pinger count} {s s' : PingSweep P}
    {l : PingLabel P} (h : s.step l = some s') : s.pinged <+: s'.pinged := by
  have hnote : ∀ (new : List (Nat × Bool)) (s : PingSweep P),
      (new.foldl PingSweep.note s).pinged = s.pinged ++ new := by
    intro new
    induction new with
    | nil => simp
    | cons p new ih =>
      intro s
      rw [List.foldl_cons, ih]
      simp [PingSweep.note]
  cases l with
  | main env =>
    have h : s.mainStep env = some s' := h
    unfold PingSweep.mainStep at h
    repeat' split at h
    all_goals
      cases h
      try exact List.prefix_rfl
  | icmp l =>
    have h : s.icmpStep l = some s' := h
    unfold PingSweep.icmpStep at h
    split at h
    · obtain ⟨sweep', _, rfl⟩ := Option.map_eq_some_iff.mp h
      exact ⟨_, (hnote _ s).symm⟩
    · cases h
  | waiter k term =>
    have h : s.waiterStep k term = some s' := h
    unfold PingSweep.waiterStep at h
    split at h
    · cases h
    · split at h
      · split at h
        · cases h
          exact List.prefix_rfl
        · cases h
          exact List.prefix_append _ _
        · cases h
      · cases h

/-- The report of a host that answered is one of a usable address. -/
theorem pingReport_usable {stored : Bool} {p : Nat × Bool} {r : Report}
    (h : pingReport o.targets stored p = some r) : o.usable r.ip = true := by
  unfold pingReport at h
  split at h
  · obtain ⟨ip, hip, rfl⟩ := Option.map_eq_some_iff.mp h
    exact usable_of_mem_targets (List.mem_of_getElem? hip)
  · cases h

theorem Discovery.Tallied.foldl {d : Discovery} {reports new : List Report}
    (h : d.Tallied o reports) (hnew : ∀ r ∈ new, o.usable r.ip = true) :
    (new.foldl (fun d r => d.reportHost o.output.stream r) d).Tallied o (reports ++ new) := by
  induction new generalizing d reports with
  | nil => simpa using h
  | cons r new ih =>
    have hone := h.reportHost (hnew r List.mem_cons_self)
    rw [List.append_cons]
    exact ih hone fun r' hr' => hnew r' (List.mem_cons_of_mem r hr')

/-! ## The invariant -/

/-- The targets that answered, in the order their pings ended. -/
def answeredIps (targets : List Ip) (pinged : List (Nat × Bool)) : List Ip :=
  pinged.filterMap fun p => if p.2 then targets[p.1]? else none

theorem mem_answeredIps {targets : List Ip} {pinged : List (Nat × Bool)} {ip : Ip} :
    ip ∈ answeredIps targets pinged ↔ ∃ i, targets[i]? = some ip ∧ (i, true) ∈ pinged := by
  unfold answeredIps
  rw [List.mem_filterMap]
  constructor
  · rintro ⟨⟨i, a⟩, hp, hip⟩
    split at hip
    · next ha =>
      simp only at ha
      subst ha
      exact ⟨i, hip, hp⟩
    · cases hip
  · rintro ⟨i, hip, hp⟩
    exact ⟨(i, true), hp, by simpa using hip⟩

theorem filterMap_pingReport (targets : List Ip) (stored : Bool) (pinged : List (Nat × Bool)) :
    (pinged.filterMap (pingReport targets stored)).map Report.ip = answeredIps targets pinged := by
  unfold answeredIps
  rw [List.map_filterMap]
  refine List.filterMap_congr fun p _ => ?_
  unfold pingReport
  split
  · cases targets[p.1]? <;> rfl
  · rfl

/-- The accounts of a scan against its sweep. -/
structure PingScan.Sound (s : PingScan o P) (reports : List Report) : Prop where
  tallied : s.Tallied o reports
  reports : reports.map Report.ip = answeredIps o.targets s.sweep.pinged
  sweep : (pingSweep P).Reachable s.sweep
  /-- Past the sweep, `pingSweep` has returned what it found. -/
  swept : s.stage ≠ .begin → s.stage ≠ .sweep → s.stage ≠ .failed →
    s.sweep.pc = .returned .alive
  listing : ∀ lines, s.stage = .returned lines → Listing o s.found lines

/-- Recording MACs leaves the hosts found alone. -/
theorem Discovery.steady_recordMacs (entries : List (Ip × Mac)) (recorded : Bool) (d : Discovery) :
    d.Steady (entries.foldl (fun d p => d.recordMac p.1 p.2 recorded) d) := by
  induction entries generalizing d with
  | nil => exact Discovery.Steady.refl d
  | cons p entries ih =>
    have hone := d.recordMac_steady p.1 p.2 recorded
    have hrest := ih (d.recordMac p.1 p.2 recorded)
    exact ⟨hrest.found.trans hone.found, hrest.counted.trans hone.counted,
      hrest.events.trans hone.events⟩

theorem PingScan.Sound.main {s s' : PingScan o P} {reports : List Report} {env : PingScanEnv}
    (h : s.Sound reports) (hs : s.mainStep o env = some s') : s'.Sound reports := by
  obtain ⟨htallied, hreports, hsweep, hswept, hlisting⟩ := h
  unfold PingScan.mainStep at hs
  split at hs
  · split at hs
    · cases hs
      exact ⟨htallied.steady ⟨List.Perm.refl _, rfl, rfl⟩, hreports, hsweep, by simp, by simp⟩
    · cases hs
      exact ⟨htallied, hreports, hsweep, by simp, by simp⟩
  · split at hs
    · split at hs
      · next hpc =>
        cases hs
        exact ⟨htallied, hreports, hsweep, fun _ _ _ => hpc, by simp⟩
      · cases hs
        exact ⟨htallied, hreports, hsweep, by simp, by simp⟩
      · cases hs
    · cases hs
  · next hstage =>
    cases hs
    refine ⟨htallied.steady (Discovery.steady_recordMacs _ _ _), hreports, hsweep, fun _ _ _ => ?_,
      by simp⟩
    exact hswept (by simp [hstage]) (by simp [hstage]) (by simp [hstage])
  · next hstage =>
    cases hs
    refine ⟨htallied.steady (reportResults_steady _ _ _), hreports, hsweep, fun _ _ _ => ?_, ?_⟩
    · exact hswept (by simp [hstage]) (by simp [hstage]) (by simp [hstage])
    · intro lines hlines
      cases hlines
      exact reportResults_listing _ _ _
  · cases hs
  · cases hs

theorem PingScan.Sound.step {s s' : PingScan o P} {reports : List Report} {l : PingScanLabel o P}
    (h : s.Sound reports) (hs : (scanNetworkPing o P).step s l = some s') :
    s'.Sound (notePing o P reports s l) := by
  cases l with
  | main env => exact h.main hs
  | sweep l stored =>
    obtain ⟨htallied, hreports, hsweep, hswept, hlisting⟩ := h
    have hs : s.sweepStep o l stored = some s' := hs
    unfold PingScan.sweepStep at hs
    split at hs
    · next hstage =>
      obtain ⟨sweep, hstep, rfl⟩ := Option.map_eq_some_iff.mp hs
      obtain ⟨new, hnew⟩ := PingSweep.step_pinged hstep
      have hdrop : sweep.pinged.drop s.sweep.pinged.length = new := by
        rw [← hnew, List.drop_left]
      simp only [notePing, hstep, Option.map_some, Option.getD_some]
      refine ⟨htallied.foldl ?_, ?_, hsweep.step hstep, by simp [hstage], by simp [hstage]⟩
      · intro r hr
        obtain ⟨p, _, hp⟩ := List.mem_filterMap.mp hr
        exact pingReport_usable hp
      · show _ = answeredIps o.targets sweep.pinged
        rw [List.map_append, hreports, PingScan.newReports, hdrop, filterMap_pingReport, ← hnew]
        exact List.filterMap_append.symm
    · cases hs
  | count =>
    obtain ⟨htallied, hreports, hsweep, hswept, hlisting⟩ := h
    have hs : s.countStep o = some s' := hs
    unfold PingScan.countStep at hs
    split at hs
    · cases hs
    · cases hs
      exact ⟨htallied.steady ⟨List.Perm.refl _, rfl, rfl⟩, hreports, hsweep, hswept, hlisting⟩
  | claim =>
    obtain ⟨htallied, hreports, hsweep, hswept, hlisting⟩ := h
    have hs : s.claimStep o = some s' := hs
    unfold PingScan.claimStep at hs
    split at hs
    · cases hs
    · cases hs
      obtain ⟨claimed, hclaimed⟩ := claimAndPrint_frame s.tracker
      refine ⟨htallied.steady ⟨List.Perm.refl _, ?_, ?_⟩, hreports, hsweep, hswept, hlisting⟩
      · show (claimAndPrint s.tracker).2.found = s.tracker.found
        rw [hclaimed]
      · show hostEvents (s.events ++ _) = _
        rw [hostEvents_append, hostEvents_progress, List.append_nil]

/-! ## Whole runs -/

theorem scanNetworkPing_sound {w : PingScan o P × List Report}
    (h : ((scanNetworkPing o P).watch [] (notePing o P)).Reachable w) : w.1.Sound w.2 := by
  refine h.invariant (I := fun w => w.1.Sound w.2) ?_ ?_
  · rintro ⟨s, reports⟩ ⟨hs, hreports⟩
    simp only [scanNetworkPing] at hs hreports
    subst hs hreports
    exact ⟨Discovery.Tallied.start o, rfl, Lts.Reachable.of_init rfl, by simp, by simp⟩
  · rintro ⟨s, reports⟩ label ⟨s', reports'⟩ _ hsound hs
    obtain ⟨hstep, hreports⟩ := Lts.watch_step hs
    simp only at hreports hstep
    subst hreports
    exact hsound.step hstep

/-- What a ping scan tells of the hosts, at any moment. -/
structure PingListed (s : PingScan o P) (reports : List Report) : Prop where
  /-- Each host is announced once, while the sweep runs. -/
  once : (hostEvents s.events).Nodup
  announced : o.output.stream = true → (hostEvents s.events).Perm s.found
  counted : s.tracker.found = s.found.length
  /-- Only hosts whose own ping was answered are found, -/
  answered : ∀ ip ∈ s.found, ∃ i, o.targets[i]? = some ip ∧ (i, true) ∈ s.sweep.pinged
  /-- and with memory for them, all of these. -/
  found : (∀ r ∈ reports, r.stored = true) →
    ∀ i ip, o.targets[i]? = some ip → (i, true) ∈ s.sweep.pinged → ip ∈ s.found
  /-- The results list them in ascending order, or with `--json` count them; without a stop, every
  address was pinged by then. -/
  results : ∀ lines, s.stage = .returned lines →
    s.found.Pairwise (fun a b => ipToU32 a < ipToU32 b) ∧
    (listed lines = s.found ∨ o.output.json = true ∧ listed lines = []) ∧
    counts lines = [s.found.length] ∧ s.sweep.running = [] ∧
    (s.sweep.stopSeen = false → ∀ i < o.targets.length, i ∈ s.sweep.reported)

/--
**A ping scan lists exactly the hosts that answered**, for every subnet, however the pings are
done and in whatever order they end.
-/
theorem ping_scan_listed {s : PingScan o P} {reports : List Report}
    (h : ((scanNetworkPing o P).watch [] (notePing o P)).Reachable (s, reports)) :
    PingListed s reports := by
  obtain ⟨htallied, hreports, hsweep, hswept, hlisting⟩ := scanNetworkPing_sound h
  simp only at htallied hreports hsweep hswept hlisting
  have hplaced := (pingSweep_sound hsweep).placed
  refine ⟨?_, ?_, htallied.counted, ?_, ?_, ?_⟩
  · refine htallied.streamed.nodup_iff.mpr ?_
    split
    · exact htallied.nodup
    · exact List.nodup_nil
  · intro hstream
    have hperm := htallied.streamed
    rw [if_pos hstream] at hperm
    exact hperm
  · intro ip hip
    obtain ⟨r, hr, rfl, _⟩ := (htallied.reported ip).mp hip
    rw [← mem_answeredIps, ← hreports]
    exact List.mem_map_of_mem hr
  · intro hstored i ip hip hpinged
    have hmem : ip ∈ reports.map Report.ip := by
      rw [hreports, mem_answeredIps]
      exact ⟨i, hip, hpinged⟩
    obtain ⟨r, hr, rfl⟩ := List.mem_map.mp hmem
    exact (htallied.reported _).mpr ⟨r, hr, rfl, hstored r hr⟩
  · intro lines hlines
    have hlist := hlisting lines hlines
    have hpc := hswept (by simp [hlines]) (by simp [hlines]) (by simp [hlines])
    unfold PingSweep.Placed at hplaced
    rw [hpc] at hplaced
    refine ⟨?_, hlist.lists, hlist.counts, ?_, hplaced.2 rfl⟩
    · refine (hlist.ascending.and htallied.nodup).imp ?_
      rintro a b ⟨hle, hne⟩
      rw [UInt32.lt_iff_toNat_lt]
      exact Nat.lt_of_le_of_ne hle fun heq => hne (ipToU32_injective (UInt32.toNat_inj.mp heq))
    · refine List.filter_eq_nil_iff.mpr fun w hw => ?_
      simp [hplaced.1 w hw]

end Scanning

/-- A subnet of two hosts, the second of which answers. -/
theorem ping_scan_listed_pair :
    let o : SubnetScan :=
      { network :=
          { address := (10, 0, 9, 0)
            prefixLen := 30
            prefixLen_le := by decide }
        output :=
          { stream := true
            json := false } }
    ∃ (P : Pinger o.targets.length) (s : PingScan o P) (reports : List Report),
      ((scanNetworkPing o P).watch [] (notePing o P)).Reachable (s, reports) ∧
        s.stage = .returned [.host (10, 0, 9, 2), .summary 1] ∧ PingListed s reports := by
  intro o
  let c : SweepConfig :=
    { ips := o.targets
      timeoutMs := 1000
      maxInFlightArg := 512
      ident := 3
      token := 8
      linux := true
      garbage := fun _ => 0
      count_lt := by decide +kernel
      max_lt := by decide }
  let P : Pinger o.targets.length := posixPinger c
  let go : PingScanLabel o P := .main {}
  let main : PingScanLabel o P := .sweep (.main {}) true
  let waiter (k : Nat) (term : Option Term) : PingScanLabel o P := .sweep (.waiter k term) true
  let labels : List (PingScanLabel o P) := [go, main, .sweep (.icmp (.run { opened := 0 })) true,
    main, main, main, main, main, main, main, main, waiter 1 (some (.exited 0)),
    waiter 0 (some .other), waiter 0 none, waiter 1 none, main, main, main, main,
    .count, .count, go, go, go]
  have hend : (((scanNetworkPing o P).watch [] (notePing o P)).exec ({}, []) labels).map
      (fun w => w.1.stage) = some (.returned [.host (10, 0, 9, 2), .summary 1]) := by
    decide +kernel
  obtain ⟨⟨s, reports⟩, hexec, hstage⟩ := Option.map_eq_some_iff.mp hend
  have hrun : ((scanNetworkPing o P).watch [] (notePing o P)).Reachable (s, reports) :=
    ⟨({}, []), labels, ⟨rfl, rfl⟩, hexec⟩
  exact ⟨P, s, reports, hrun, hstage, ping_scan_listed hrun⟩

end NetScanner.Hosts
