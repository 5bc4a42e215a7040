import NetScanner.Json.Events
import NetScanner.Ports.Exact
import NetScanner.Ports.Progress

/-!
# The output of a port scan

`src/core/scanner.zig` and `src/core/main.zig`: what a port scan prints with `--json`, as one stream
of bytes.

A consumer reads the stream line by line. `ports_output_told` says what it then knows, whatever the
order in which the loops report: which ports are open, each told once, and a summary that agrees
with what was told before it. The services come out of the program's own table, whose texts are
UTF-8 (`consumeUtf8_ports`).
-/

namespace NetScanner.Json

open Infra Infra.Json Net Progress Ports

/-! ## What is printed -/

/-- An event of a port scan, named from the port table. -/
def scanEvent (services : Nat → Option Service) : ScanEvent → Event
  | .port n => .port n (services n)
  | .progress event => .progress event

/-- The events, and the summary of `runPortScan`. -/
def portEvents (services : Nat → Option Service) (events : List ScanEvent) (openPorts : List Nat)
    (elapsedMs : Int) : List Event :=
  events.map (scanEvent services) ++ [.portSummary openPorts elapsedMs]

/-- The ports of the `port` events. -/
def shownPorts (events : List ScanEvent) : List Nat :=
  events.filterMap fun
    | .port n => some n
    | .progress _ => none

theorem shownPorts_append (as bs : List ScanEvent) :
    shownPorts (as ++ bs) = shownPorts as ++ shownPorts bs := List.filterMap_append

theorem shownPorts_progress (events : List ProgressEvent) :
    shownPorts (events.map .progress) = [] := by
  simp [shownPorts, List.filterMap_map]

/-! ## What is told -/

/-- The ports that a consumer was told are open. -/
def toldPorts (told : List (Option Event)) : List Nat :=
  told.filterMap fun
    | some (.port n _) => some n
    | _ => none

theorem toldPorts_append (as bs : List (Option Event)) :
    toldPorts (as ++ bs) = toldPorts as ++ toldPorts bs := List.filterMap_append

/-- What a consumer is told of an event. -/
def told (e : Event) : Option Event := some e.cut

theorem toldPorts_scan (services : Nat → Option Service) (events : List ScanEvent) :
    toldPorts ((events.map (scanEvent services)).map told) = shownPorts events := by
  induction events with
  | nil => rfl
  | cons event events ih =>
    cases event with
    | port n => exact congrArg (n :: ·) ih
    | progress event => exact ih

/-- Counting prints no ports. -/
theorem shownPorts_advance (s : PortScan) : shownPorts s.advance.events = shownPorts s.events := by
  unfold PortScan.advance
  simp only []
  split
  · simp only
    rw [shownPorts_append, shownPorts_progress, List.append_nil]
  · rfl

theorem shownPorts_advanceHalves (s : PortScan) (n : Nat) :
    shownPorts (s.advanceHalves n).events = shownPorts s.events := by
  have hmany : ∀ (k : Nat) (s : PortScan),
      shownPorts (PortScan.advance^[k] s).events = shownPorts s.events := by
    intro k
    induction k with
    | zero => exact fun _ => rfl
    | succ k ih =>
      intro s
      rw [Function.iterate_succ_apply, ih, shownPorts_advance]
  unfold PortScan.advanceHalves
  simp only []
  rw [hmany]

theorem shownPorts_done {s : PortScan} (hstream : s.run.output.stream = true) (p : PortProbe)
    (o : Connects.Outcome) (e : Nat) : shownPorts (s.done p o e).events =
      shownPorts s.events ++ if o = .open then [p.target.port] else [] := by
  obtain ⟨r, hr, hdone⟩ := s.done_settles p o e
  rw [hdone, shownPorts_advanceHalves, hr.events, shownPorts_append]
  by_cases ho : o = .open
  · rw [if_pos ⟨ho, hstream⟩, if_pos ho]
    rfl
  · rw [if_neg (fun h => ho h.1), if_neg ho]
    rfl

/-- **A pass shows the ports that are reported open**, as they are. -/
theorem shownPorts_serving {t : PortTable} {s₀ s : PortScan}
    {calls : List (Connects.Call PortProbe)} {out : Multiset PortProbe}
    (h : Connects.Serving (source t) s₀ calls s out) (hstream : s₀.run.output.stream = true) :
    s.run.output.stream = true ∧
      shownPorts s.events = shownPorts s₀.events ++ reportedAs .open calls := by
  induction h with
  | start => exact ⟨hstream, (List.append_nil _).symm⟩
  | hand _ hnext ih | dry _ hnext ih =>
    obtain ⟨hrun, hshown⟩ := ih
    obtain ⟨-, hrun', -, -, hevents⟩ := PortScan.next_keeps hnext
    refine ⟨by rw [hrun']; exact hrun, ?_⟩
    rw [hevents, hshown, reportedAs_append, reportedAs_next, List.append_nil]
  | @report calls s out p o e _ ih =>
    obtain ⟨hrun, hshown⟩ := ih
    refine ⟨?_, ?_⟩
    · obtain ⟨r, hr, hdone⟩ := s.done_settles p o e
      obtain ⟨tracker, events, halfUnits, hframe⟩ := r.advanceHalves_frame (s.halves p o e)
      show (s.done p o e).run.output.stream = true
      rw [hdone, hframe]
      show r.run.output.stream = true
      rw [hr.run]
      exact hrun
    · show shownPorts (s.done p o e).events = _
      rw [shownPorts_done hrun, hshown, reportedAs_append, reportedAs_done, List.append_assoc]

/-- What a consumer knows at the end of a port scan that tried `lo..hi` and saw the calls. -/
structure PortsTold (services : Nat → Option Service) (lo hi : Nat) (memory : Nat → Bool)
    (calls : List (Connects.Call PortProbe)) (result : List Nat) (elapsedMs : Int)
    (told : List (Option Event)) : Prop where
  /-- No line is lost on it. -/
  read : ∀ e ∈ told, e.isSome = true
  /-- It is told of the ports that were reported open, as they are, and of each once. -/
  ports : toldPorts told = reportedAs .open calls
  once : (toldPorts told).Nodup
  inRange : ∀ n ∈ toldPorts told, lo ≤ n ∧ n ≤ hi
  /-- A port is told with its own service. -/
  named : ∀ n service, some (.port n service) ∈ told →
    Event.port n service = (Event.port n (services n)).cut
  /-- The summary comes last, and lists the ports told in ascending order. -/
  last : told.getLast? = some (some (.portSummary result elapsedMs))
  ascending : result.Pairwise (· < ·)
  summarized : ∀ n ∈ result, n ∈ toldPorts told
  /-- None is missing from it, as long as there is memory. -/
  complete : (∀ k, memory k = true) → result.Perm (toldPorts told)

section Passes

variable {t : PortTable} {run : Run} {ip : Ip} {lo hi : Nat} {timeoutMs : Option Nat}
  {tracker : Tracker} {s₁ s₂ s₃ : PortScan} {calls₁ calls₂ calls₃ : List (Connects.Call PortProbe)}

/-- **The three passes show what they report open**, one after the other. -/
theorem shownPorts_passes (hstream : run.output.stream = true)
    (h : Passes t (PortScan.init run ip lo hi timeoutMs tracker) s₁ s₂ s₃ calls₁ calls₂ calls₃) :
    shownPorts s₃.events = reportedAs .open (calls₁ ++ calls₂ ++ calls₃) := by
  obtain ⟨hstream₁, hshown₁⟩ := shownPorts_serving h.first.served hstream
  obtain ⟨hstream₂, hshown₂⟩ := shownPorts_serving h.retry.served hstream₁
  have hstart : shownPorts (PortScan.init run ip lo hi timeoutMs tracker).events = [] := rfl
  have hsecond : shownPorts s₁.second.events = shownPorts s₁.events := rfl
  have hlook : s₂.needsThirdPass.2.events = s₂.events := by rw [s₂.needsThirdPass_snd]
  rw [hstart, List.nil_append] at hshown₁
  rw [hsecond, hshown₁] at hshown₂
  rw [reportedAs_append, reportedAs_append, ← hshown₂]
  have hthird := h.third
  split at hthird
  · obtain ⟨-, hshown₃⟩ := shownPorts_serving hthird.served
      (by rw [PortScan.third, s₂.needsThirdPass_snd]; exact hstream₂)
    rw [hshown₃]
    show shownPorts s₂.needsThirdPass.2.events ++ _ = _
    rw [hlook]
  · rw [hthird.1, hthird.2, hlook]
    exact (List.append_nil _).symm

/-- A port that any pass reports was handed out by the first. -/
theorem reported_inRange (hstop : ∀ k, run.cancel k = false)
    (h : Passes t (PortScan.init run ip lo hi timeoutMs tracker) s₁ s₂ s₃ calls₁ calls₂ calls₃)
    {n : Nat} (hn : n ∈ reportedAs .open (calls₁ ++ calls₂ ++ calls₃)) : lo ≤ n ∧ n ≤ hi := by
  have hfirst : ∀ o, ∀ n ∈ reportedAs o calls₁, lo ≤ n ∧ n ≤ hi := by
    intro o n hn
    have hmem := reportedAs_subset _ _ hn
    rw [(ports_perm_of_pass h.first).mem_iff, (h.first_handed rfl hstop).mem_iff,
      List.mem_range'_1] at hmem
    omega
  have hsecond : ∀ o, ∀ n ∈ reportedAs o calls₂, lo ≤ n ∧ n ≤ hi := fun o n hn =>
    hfirst _ n (h.second_subset rfl hstop (reportedAs_subset _ _ hn))
  rw [reportedAs_append, reportedAs_append, List.mem_append, List.mem_append] at hn
  rcases hn with (hn | hn) | hn
  · exact hfirst _ n hn
  · exact hsecond _ n hn
  · exact hsecond _ n ((h.third_subset rfl hstop).2 (reportedAs_subset _ _ hn))

/--
**A consumer of a port scan is told each open port once, and a summary of just these.** For every
range and every order in which the three passes hand ports out and take verdicts, with `--json` and
streaming: the bytes of the whole output are read line by line as the events and the summary.
-/
theorem ports_output_told (houtput : run.output = { stream := true, json := true })
    (hstop : ∀ k, run.cancel k = false)
    (h : Passes t (PortScan.init run ip lo hi timeoutMs tracker) s₁ s₂ s₃ calls₁ calls₂ calls₃)
    (services : Nat → Option Service) (elapsedMs : Int) :
    PortsTold services lo hi run.memory (calls₁ ++ calls₂ ++ calls₃) s₃.result elapsedMs
      (consume (output (portEvents services s₃.events s₃.result elapsedMs))) := by
  have hshown := shownPorts_passes (by rw [houtput]) h
  have hexact := h.exact hstop
  have hconsume := consume_output (portEvents services s₃.events s₃.result elapsedMs)
  obtain ⟨seen, hseen⟩ : ∃ seen, seen = consume (output (portEvents services s₃.events s₃.result
    elapsedMs)) := ⟨_, rfl⟩
  rw [← hseen] at hconsume ⊢
  have hparts : seen = (s₃.events.map (scanEvent services)).map told ++
      [told (.portSummary s₃.result elapsedMs)] := by
    rw [hconsume, portEvents, List.map_append]
    rfl
  have htold : toldPorts seen = reportedAs .open (calls₁ ++ calls₂ ++ calls₃) := by
    rw [hparts, toldPorts_append, toldPorts_scan, hshown]
    exact List.append_nil _
  refine ⟨?_, htold, ?_, ?_, ?_, ?_, hexact.ascending, ?_, ?_⟩
  · rw [hconsume]
    intro e he
    obtain ⟨e', _, rfl⟩ := List.mem_map.mp he
    rfl
  · rw [htold]
    exact h.open_nodup rfl hstop
  · rw [htold]
    exact fun n hn => reported_inRange hstop h hn
  · intro n service hmem
    rw [hconsume, portEvents, List.map_append, List.mem_append] at hmem
    rcases hmem with hmem | hmem
    · obtain ⟨e, he, hcut⟩ := List.mem_map.mp hmem
      obtain ⟨event, _, rfl⟩ := List.mem_map.mp he
      cases event with
      | port n' =>
        obtain ⟨rfl, hservice⟩ := Event.port.inj (Option.some.inj hcut)
        rw [← hservice]
        rfl
      | progress event => cases hcut
    · cases List.mem_singleton.mp hmem
  · rw [hparts, List.getLast?_concat]
    rfl
  · rw [htold]
    exact hexact.sound
  · intro hmemory
    rw [htold]
    have hsorted : s₃.result.Perm s₃.openPorts := List.mergeSort_perm _ _
    rwa [h.openPorts rfl hstop, recorded_of_memory hmemory] at hsorted

end Passes

/-- A scan of two ports: the one with a service is open, the other refuses. -/
theorem ports_output_told_printer :
    let t : PortTable :=
      { entries := [⟨631, 1⟩]
        byRank := [631]
        ascending := by decide
        port_pos := by decide
        built := by decide }
    let run : Run :=
      { output := { stream := true, json := true }
        cancel := fun _ => false
        memory := fun _ => true }
    let services (n : Nat) : Option Service :=
      if n = 631 then some { name := ascii "IPP", iana := some (ascii "ipp") } else none
    let s₀ := PortScan.init run (10, 0, 0, 7) 630 631 none {}
    ∃ s₁ s₂ s₃ calls₁ calls₂ calls₃, Passes t s₀ s₁ s₂ s₃ calls₁ calls₂ calls₃ ∧
      reportedAs .open (calls₁ ++ calls₂ ++ calls₃) = [631] ∧
      PortsTold services 630 631 run.memory (calls₁ ++ calls₂ ++ calls₃) s₃.result 40
        (consume (output (portEvents services s₃.events s₃.result 40))) := by
  intro t run services s₀
  let blind (port : Nat) : PortProbe :=
    { target :=
        { ip := (10, 0, 0, 7)
          port := port
          timeoutMs := 500
          cutFloorMs := some 100 }
      deferrable := false
      blind := true }
  let calls₁ : List (Connects.Call PortProbe) := [.next (some (blind 631)),
    .next (some (blind 630)), .done (blind 630) .refused 700, .done (blind 631) .open 900,
    .next none]
  have hreplay : (replayPasses t s₀ calls₁ [.next none] []).isSome := by decide +kernel
  obtain ⟨⟨s₁, s₂, s₃⟩, hpasses⟩ := Option.isSome_iff_exists.mp hreplay
  have hscan := passes_of_replay hpasses
  exact ⟨s₁, s₂, s₃, calls₁, [.next none], [], hscan, rfl,
    ports_output_told rfl (fun _ => rfl) hscan services 40⟩

/-- **When the texts of the services are UTF-8, so is every line.** -/
theorem consumeUtf8_ports {services : Nat → Option Service}
    (hservices : ∀ n, (Event.port n (services n)).Readable) (events : List ScanEvent)
    (openPorts : List Nat) (elapsedMs : Int) :
    consumeUtf8 (output (portEvents services events openPorts elapsedMs)) =
      consume (output (portEvents services events openPorts elapsedMs)) := by
  rw [consumeUtf8_output, consume_output]
  refine List.map_congr_left fun e he => if_pos ?_
  rcases List.mem_append.mp he with he | he
  · obtain ⟨event, _, rfl⟩ := List.mem_map.mp he
    cases event with
    | port n => exact hservices n
    | progress event => exact fun _ htext => absurd htext List.not_mem_nil
  · rw [List.mem_singleton.mp he]
    exact fun _ htext => absurd htext List.not_mem_nil

end NetScanner.Json
