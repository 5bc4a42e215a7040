import NetScanner.Ports.Progress

/-!
# No hit after 100%

`PortScan.done` counts a port only after its `port` event, *so a frontend never sees 100% before
the last hit*. That holds of the first two passes, which do all the counting; but a third pass
starts when the count is full already, and prints what it finds after the event that said so.

`hitsFirst_iff` says that this is the only way: a `--json` scan that runs to its end keeps the
promise if and only if no verdict of its third pass is open. `lossy_host_hit_after_100` is a scan
of a lossy host that does not.
-/

namespace NetScanner.Ports

open Infra Connects Progress

/-- The event that says 100% comes, and no hit comes after it. -/
structure HitsFirst (events : List ScanEvent) : Prop where
  comes : ∃ e, .progress e ∈ events ∧ e.done = e.total
  hits_before : ∀ before e after, events = before ++ .progress e :: after → e.done = e.total →
    ∀ port, .port port ∉ after

/-- No event of `events` says 100%. -/
def Below (events : List ScanEvent) : Prop :=
  ∀ e, .progress e ∈ events → e.done ≠ e.total

/-- What a scan of `n` ports has printed while it still counts: the event that says 100% is the
last one, and it is out as soon as the count is full. -/
structure Shown (n : Nat) (s : PortScan) : Prop where
  phase : s.tracker.phase = some .ports
  total : s.tracker.total = n
  claimed : s.tracker.lastClaimed ≤ s.tracker.done
  below : s.tracker.done < n → Below s.events
  full : s.tracker.done = n → ∃ before e, s.events = before ++ [.progress e] ∧ Below before ∧
    e.done = e.total

theorem Below.append {events more : List ScanEvent} (h : Below events) (h' : Below more) :
    Below (events ++ more) := by
  intro e he
  rcases List.mem_append.mp he with he | he
  · exact h e he
  · exact h' e he

theorem Below.ports (ports : List Nat) : Below (ports.map .port) := by
  intro e he
  simp at he

/-! ## While the scan counts -/

namespace Shown

variable {n : Nat} {s : PortScan}

theorem start (run : Run) (ip : Net.Ip) {lo hi : Nat} (hrange : lo ≤ hi) (timeoutMs : Option Nat)
    (tracker : Tracker) :
    Shown (hi + 1 - lo) (PortScan.init run ip lo hi timeoutMs tracker) where
  phase := rfl
  total := rfl
  claimed := le_refl _
  below _ e he := by simp [PortScan.init] at he
  full hdone := by
    simp [PortScan.init, Tracker.startPhase] at hdone
    omega

theorem advance (h : Shown n s) (hevents : s.run.output.events = true)
    (hlt : s.tracker.done < n) : Shown n s.advance := by
  have hclaimed := h.claimed
  have htotal := h.total
  unfold PortScan.advance
  simp only [Tracker.advance, hevents, htotal, Bool.and_true]
  split
  · next hcross =>
    rcases claimAndPrint_cases (t := { s.tracker with done := s.tracker.done + 1 }) h.phase with
      ⟨hle, _⟩ | ⟨_, heq⟩
    · simp only [htotal] at hle
      omega
    · have hmin : min (s.tracker.done + 1) n = s.tracker.done + 1 := by omega
      simp only [htotal, hmin] at heq
      rw [heq]
      refine ⟨h.phase, rfl, le_refl _, ?_, ?_⟩
      · intro hless
        simp only [] at hless
        refine (h.below hlt).append ?_
        intro e he
        simp only [List.map_cons, List.map_nil, List.mem_singleton, ScanEvent.progress.injEq] at he
        subst he
        simp only []
        omega
      · intro hfull
        exact ⟨s.events, _, rfl, h.below hlt, hfull⟩
  · next hcross =>
    -- the last unit always crosses
    have hne : s.tracker.done + 1 ≠ n := by
      intro heq
      rw [heq] at hcross
      exact hcross (crossesPercent_total (by omega))
    refine ⟨h.phase, rfl, ?_, fun _ => h.below hlt, ?_⟩
    · show s.tracker.lastClaimed ≤ s.tracker.done + 1
      omega
    · intro hfull
      exact absurd hfull hne

theorem iterate_advance (k : Nat) {s : PortScan} (h : Shown n s)
    (hevents : s.run.output.events = true) (hle : s.tracker.done + k ≤ n) :
    Shown n (PortScan.advance^[k] s) := by
  induction k generalizing s with
  | zero => exact h
  | succ k ih =>
    have hdone := s.advance_counts
    obtain ⟨tr, ev, hframe⟩ := s.advance_frame
    rw [Function.iterate_succ_apply]
    refine ih (h.advance hevents (by omega)) ?_ (by omega)
    rw [hframe]
    exact hevents

theorem settled {r : PortScan} {p : PortProbe} {o : Outcome} (h : Shown n s)
    (hlt : s.tracker.done < n) (hr : PortScan.Settles s p o r) : Shown n r := by
  have htracker : r.tracker.phase = s.tracker.phase ∧ r.tracker.total = s.tracker.total ∧
      r.tracker.lastClaimed = s.tracker.lastClaimed ∧ r.tracker.done = s.tracker.done := by
    rw [hr.tracker]
    split <;> exact ⟨rfl, rfl, rfl, rfl⟩
  obtain ⟨hphase, htotal, hclaimed, hdone⟩ := htracker
  refine ⟨hphase.trans h.phase, htotal.trans h.total, ?_, ?_, ?_⟩
  · rw [hclaimed, hdone]
    exact h.claimed
  · intro _
    rw [hr.events]
    refine (h.below hlt).append ?_
    split
    · exact Below.ports [p.target.port]
    · exact Below.ports []
  · intro hfull
    omega

theorem done (h : Shown n s) (hevents : s.run.output.events = true) (hlt : s.tracker.done < n)
    (p : PortProbe) (o : Outcome) (e : Nat) (hle : (s.done p o e).tracker.done ≤ n) :
    Shown n (s.done p o e) := by
  obtain ⟨r, hr, hdone⟩ := s.done_settles p o e
  rw [hdone] at hle ⊢
  rw [(r.advanceHalves_counts _).done] at hle
  refine iterate_advance _ (s := { r with halfUnits := r.halfUnits + s.halves p o e }) ?_ ?_ hle
  · obtain ⟨hphase, htotal, hclaimed, hbelow, hfull⟩ := h.settled hlt hr
    exact ⟨hphase, htotal, hclaimed, hbelow, hfull⟩
  · show r.run.output.events = true
    rw [hr.run]
    exact hevents

end Shown

/-! ## A whole scan -/

/-- What a watcher of the scan notes: whether a verdict of the third pass was open. -/
def sawLateHit (late : Bool) (m : Scanning) : ScanLabel → Bool
  | .report _ outcome _ => late || decide (m.scan.pass = .third ∧ outcome = .open)
  | _ => late

/-- What a scan has printed, and what its watcher has noted. -/
structure Closing (t : PortTable) (run : Run) (n : Nat) (w : Scanning × Bool) : Prop where
  counted : Counted t run n w.1
  counting : w.1.scan.pass ≠ .third → w.2 = false ∧ Shown n w.1.scan
  /-- The third pass prints its hits behind the event that says 100%. -/
  third : w.1.scan.pass = .third → ∃ before e hits,
    w.1.scan.events = before ++ .progress e :: hits.map .port ∧ Below before ∧
      e.done = e.total ∧ (w.2 = false ↔ hits = [])

/-- While a probe of the first two passes is out, the count is not full. -/
theorem Counted.lt {t : PortTable} {run : Run} {n : Nat} {m : Scanning} (h : Counted t run n m)
    (hpass : m.scan.pass ≠ .third) (hout : m.out ≠ 0) : m.scan.tracker.done < n := by
  have hbalance := h.balance
  have hdone := h.done
  have hcard := Multiset.card_pos.mpr hout
  have hpos : 0 < m.scan.pass.halves * m.out.card := by
    refine Nat.mul_pos ?_ hcard
    cases hp : m.scan.pass with
    | first => simp [ScanPass.halves]
    | retry => simp [ScanPass.halves]
    | third => exact absurd hp hpass
  omega

/-- What a scan has printed says whether it kept the promise. -/
theorem hitsFirst_of_shape {before : List ScanEvent} {e : ProgressEvent} {hits : List Nat}
    (hbelow : Below before) (hfull : e.done = e.total) :
    HitsFirst (before ++ .progress e :: hits.map .port) ↔ hits = [] := by
  constructor
  · intro h
    have hnone := h.hits_before before e _ rfl hfull
    cases hits with
    | nil => rfl
    | cons port hits => exact absurd (by simp) (hnone port)
  · rintro rfl
    refine ⟨⟨e, by simp, hfull⟩, ?_⟩
    intro before' e' after heq hfull' port hport
    -- an event with more behind it is not the last one
    obtain ⟨init, last, rfl⟩ :=
      (List.eq_nil_or_concat after).resolve_left (List.ne_nil_of_mem hport)
    have hinit : before = before' ++ .progress e' :: init := by
      have heq' : before ++ [.progress e] = (before' ++ .progress e' :: init) ++ [last] := by
        simpa using heq
      exact (List.append_inj' heq' rfl).1
    exact hbelow e' (by rw [hinit]; simp) hfull'

namespace Closing

variable {t : PortTable} {run : Run} {n : Nat} {w w' : Scanning × Bool}

theorem next (h : Closing t run n w) (hs : w.1.step t .next = some w'.1) (hlate : w'.2 = w.2) :
    Closing t run n w' := by
  have hkept : w'.1.scan.pass = w.1.scan.pass ∧ w'.1.scan.tracker = w.1.scan.tracker ∧
      w'.1.scan.events = w.1.scan.events := by
    obtain ⟨_, hcases⟩ := Scanning.step_next hs
    rcases hcases with ⟨s', hnext, hw'⟩ | ⟨s', probe, hnext, hw'⟩
    · obtain ⟨hpass, _, _, htracker, hevents⟩ := PortScan.next_keeps hnext
      rw [hw']
      exact ⟨hpass, htracker, hevents⟩
    · obtain ⟨hpass, _, _, htracker, hevents⟩ := PortScan.next_keeps hnext
      rw [hw']
      exact ⟨hpass, htracker, hevents⟩
  obtain ⟨hpass, htracker, hevents⟩ := hkept
  refine ⟨h.counted.step hs, ?_, ?_⟩
  · intro hp
    rw [hpass] at hp
    obtain ⟨hnone, hphase, htotal, hclaimed, hbelow, hfull⟩ := h.counting hp
    rw [hlate]
    refine ⟨hnone, ?_, ?_, ?_, ?_, ?_⟩ <;> rw [htracker]
    · exact hphase
    · exact htotal
    · exact hclaimed
    · rw [hevents]
      exact hbelow
    · rw [hevents]
      exact hfull
  · intro hp
    rw [hpass] at hp
    rw [hlate, hevents]
    exact h.third hp

theorem report (h : Closing t run n w) (hevents : run.output.events = true) {p : PortProbe}
    {o : Outcome} {e : Nat} (hs : w.1.step t (.report p o e) = some w'.1)
    (hlate : w'.2 = (w.2 || decide (w.1.scan.pass = .third ∧ o = .open))) :
    Closing t run n w' := by
  have hcounted := h.counted.step hs
  obtain ⟨out, hout, hw'⟩ := Scanning.step_report hs
  have hpass : w'.1.scan.pass = w.1.scan.pass := by
    rw [hw']
    exact w.1.scan.done_pass p o e
  have hrun := h.counted.run_eq
  refine ⟨hcounted, ?_, ?_⟩
  · intro hp
    rw [hpass] at hp
    obtain ⟨hnone, hshown⟩ := h.counting hp
    rw [hlate, hnone]
    refine ⟨by simp [hp], ?_⟩
    have hle : w'.1.scan.tracker.done ≤ n := by
      have hbalance := hcounted.balance
      have hdone := hcounted.done
      omega
    rw [hw'] at hle ⊢
    exact hshown.done (by rw [hrun]; exact hevents)
      (h.counted.lt hp (by rw [hout]; exact Multiset.cons_ne_zero)) p o e hle
  · intro hp
    rw [hpass] at hp
    obtain ⟨before, full, hits, heq, hbelow, hfull, hiff⟩ := h.third hp
    obtain ⟨r, hr, hdone⟩ := w.1.scan.done_settles p o e
    have hnone : w.1.scan.halves p o e = 0 := by
      unfold PortScan.halves
      rw [if_neg (by simp [hp]), hp]
      rfl
    rw [hnone, r.advanceHalves_zero] at hdone
    have hscan : w'.1.scan.events = w.1.scan.events ++
        if o = .open then [.port p.target.port] else [] := by
      have hstream : w.1.scan.run.output.stream = true := by
        rw [hrun]
        exact (Bool.and_eq_true_iff.mp hevents).2
      rw [hw', hdone, hr.events, hstream]
      simp
    by_cases ho : o = .open
    · refine ⟨before, full, hits ++ [p.target.port], ?_, hbelow, hfull, ?_⟩
      · rw [hscan, heq, if_pos ho]
        simp
      · rw [hlate]
        simp [hp, ho]
    · refine ⟨before, full, hits, ?_, hbelow, hfull, ?_⟩
      · rw [hscan, heq, if_neg ho, List.append_nil]
      · rw [hlate]
        simpa [ho] using hiff

theorem turn (h : Closing t run n w) (hstop : ∀ k, run.cancel k = false)
    (hs : w.1.step t .turn = some w'.1) (hlate : w'.2 = w.2) : Closing t run n w' := by
  have hcounted := h.counted.step hs
  obtain ⟨_, hcases⟩ := Scanning.step_turn hs
  rcases hcases with ⟨hpass, hw'⟩ | ⟨hpass, hw'⟩ | ⟨hpass, hw'⟩ | ⟨hpass, hw'⟩
  · obtain ⟨hnone, hphase, htotal, hclaimed, hbelow, hfull⟩ := h.counting (by simp [hpass])
    refine ⟨hcounted, ?_, ?_⟩
    · intro _
      rw [hlate, hw']
      exact ⟨hnone, hphase, htotal, hclaimed, hbelow, hfull⟩
    · intro hp
      rw [hw'] at hp
      simp [PortScan.second] at hp
  · obtain ⟨hnone, hshown⟩ := h.counting (by simp [hpass])
    have hthird : w'.1.scan = { w.1.scan with looks := w.1.scan.looks + 1, pass := .third } := by
      rw [hw', PortScan.third, w.1.scan.needsThirdPass_snd]
    have hdone := hcounted.full hstop (Or.inl (by rw [hthird]))
    rw [hthird] at hdone
    obtain ⟨before, e, heq, hbelow, hfull⟩ := hshown.full hdone
    refine ⟨hcounted, ?_, ?_⟩
    · intro hp
      rw [hthird] at hp
      simp at hp
    · intro _
      refine ⟨before, e, [], ?_, hbelow, hfull, by simp [hlate, hnone]⟩
      rw [hthird]
      exact heq
  · obtain ⟨hnone, hphase, htotal, hclaimed, hbelow, hfull⟩ := h.counting (by simp [hpass])
    have hscan : w'.1.scan = { w.1.scan with looks := w.1.scan.looks + 1 } := by
      rw [hw', w.1.scan.needsThirdPass_snd]
    refine ⟨hcounted, ?_, ?_⟩
    · intro _
      rw [hlate, hscan]
      exact ⟨hnone, hphase, htotal, hclaimed, hbelow, hfull⟩
    · intro hp
      rw [hscan] at hp
      simp [hpass] at hp
  · refine ⟨hcounted, ?_, ?_⟩
    · intro hp
      rw [hw'] at hp
      exact absurd hpass hp
    · intro _
      rw [hlate, hw']
      exact h.third hpass

end Closing

section Scan

variable {t : PortTable} {run : Run} {ip : Net.Ip} {lo hi : Nat} {timeoutMs : Option Nat}
  {tracker : Tracker} {m : Scanning} {late : Bool}

theorem Closing.of_reachable (hstop : ∀ k, run.cancel k = false)
    (hevents : run.output.events = true) (hrange : lo ≤ hi)
    (h : ((scanning t (PortScan.init run ip lo hi timeoutMs tracker)).watch false
      sawLateHit).Reachable (m, late)) : Closing t run (hi + 1 - lo) (m, late) := by
  refine h.invariant (I := Closing t run (hi + 1 - lo)) ?_ ?_
  · rintro ⟨m, late⟩ ⟨hm, hlate⟩
    cases hm
    refine ⟨Counted.start ip lo hi timeoutMs tracker, ?_, ?_⟩
    · intro _
      exact ⟨hlate, Shown.start run ip hrange timeoutMs tracker⟩
    · intro hp
      simp [PortScan.init] at hp
  · intro w l w' _ hw hs
    obtain ⟨hstep, hlate⟩ := Lts.watch_step hs
    cases l with
    | next => exact hw.next hstep hlate
    | report p o e => exact hw.report hevents hstep hlate
    | turn => exact hw.turn hstop hstep hlate

/--
**A frontend sees 100% before the last hit if and only if a verdict of the third pass is open**,
for every range, every timeout and every order and outcome of the verdicts of a `--json` scan that
runs to its end.
-/
theorem hitsFirst_iff (hstream : run.output.stream = true) (hjson : run.output.json = true)
    (hstop : ∀ k, run.cancel k = false) (hrange : lo ≤ hi)
    (h : ((scanning t (PortScan.init run ip lo hi timeoutMs tracker)).watch false
      sawLateHit).Reachable (m, late)) (hended : m.ended = true) :
    HitsFirst m.scan.events ↔ late = false := by
  have hevents : run.output.events = true := by simp [Output.events, hstream, hjson]
  have hclosing := Closing.of_reachable hstop hevents hrange h
  by_cases hpass : m.scan.pass = .third
  · obtain ⟨before, e, hits, heq, hbelow, hfull, hiff⟩ := hclosing.third hpass
    rw [heq, hitsFirst_of_shape hbelow hfull, hiff]
  · obtain ⟨hnone, hshown⟩ := hclosing.counting hpass
    have hdone := hclosing.counted.full hstop (Or.inr (Or.inl hended))
    obtain ⟨before, e, heq, hbelow, hfull⟩ := hshown.full hdone
    have hshape : HitsFirst (before ++ .progress e :: ([] : List Nat).map .port) :=
      (hitsFirst_of_shape hbelow hfull).mpr rfl
    rw [heq]
    exact iff_of_true hshape hnone

end Scan

/-- A scan of two ports, whose only hit comes in the first pass. -/
theorem hitsFirst_two_ports :
    let t : PortTable :=
      { entries := []
        byRank := []
        ascending := by decide
        port_pos := by decide
        built := by decide }
    let run : Run :=
      { output := { stream := true, json := true }
        cancel := fun _ => false
        memory := fun _ => true }
    let s₀ := PortScan.init run (10, 0, 0, 1) 79 80 none {}
    ∃ m, ((scanning t s₀).watch false sawLateHit).Reachable (m, false) ∧ m.ended = true ∧
      m.scan.events.length = 3 ∧ (HitsFirst m.scan.events ↔ false = false) := by
  intro t run s₀
  let blind (port : Nat) : PortProbe :=
    { target :=
        { ip := (10, 0, 0, 1)
          port := port
          timeoutMs := 500
          cutFloorMs := some 100 }
      deferrable := false
      blind := true }
  let again : PortProbe :=
    { target :=
        { ip := (10, 0, 0, 1)
          port := 79
          timeoutMs := 100 }
      deferrable := false }
  let labels : List ScanLabel := [.next, .next, .report (blind 80) .open 1000, .next,
    .report (blind 79) .filtered 500000, .turn, .next, .next, .report again .filtered 100000, .turn]
  have hrun : (((scanning t s₀).watch false sawLateHit).exec ({ scan := s₀ }, false) labels).map
      (fun w => (w.2, w.1.ended, w.1.scan.events.length)) = some (false, true, 3) := by
    decide +kernel
  obtain ⟨⟨m, late⟩, hm, hend⟩ := Option.map_eq_some_iff.mp hrun
  simp only [Prod.mk.injEq] at hend
  obtain ⟨rfl, hended, hevents⟩ := hend
  have hreach : ((scanning t s₀).watch false sawLateHit).Reachable (m, false) :=
    ⟨({ scan := s₀ }, false), labels, ⟨rfl, rfl⟩, hm⟩
  exact ⟨m, hreach, hended, hevents, hitsFirst_iff rfl rfl (fun _ => rfl) (by decide) hreach hended⟩

/-! ## A lossy host -/

section Lossy

variable {t : PortTable} {s₀ : PortScan}

/-- A moment of a scan with nothing out and no late hit yet. -/
def quiet (scan : PortScan) : Scanning × Bool := ({ scan }, false)

/-- A pass that has not run dry hands out a probe. -/
theorem PortScan.exists_next_some {s : PortScan} (h : ∀ s', s.next t ≠ (none, s')) :
    ∃ p s', s.next t = (some p, s') := by
  obtain ⟨job, s', hnext⟩ : ∃ job s', s.next t = (job, s') := ⟨_, _, rfl⟩
  cases job with
  | none => exact absurd hnext (h s')
  | some p => exact ⟨p, s', hnext⟩

theorem PortScan.exists_next_none {s : PortScan} (h : ∀ p s', s.next t ≠ (some p, s')) :
    ∃ s', s.next t = (none, s') := by
  obtain ⟨job, s', hnext⟩ : ∃ job s', s.next t = (job, s') := ⟨_, _, rfl⟩
  cases job with
  | none => exact ⟨s', hnext⟩
  | some p => exact absurd hnext (h p s')

/-- A probe handed out and reported at once. -/
theorem reach_probe {s s' : PortScan} {p : PortProbe}
    (h : ((scanning t s₀).watch false sawLateHit).Reachable (quiet s))
    (hnext : s.next t = (some p, s')) (o : Outcome) (e : Nat) :
    ((scanning t s₀).watch false sawLateHit).Reachable
      ({ scan := s'.done p o e }, decide (s.pass = .third ∧ o = .open)) := by
  have hpass := (PortScan.next_keeps hnext).1
  have hhanded : ((scanning t s₀).watch false sawLateHit).Reachable
      ({ scan := s', out := {p} }, false) := by
    refine h.step (l := .next) ?_
    simp [Lts.watch, scanning, Scanning.step, quiet, hnext, sawLateHit]
  refine hhanded.step (l := .report p o e) ?_
  simp [Lts.watch, scanning, Scanning.step, sawLateHit, hpass]

/-- The pass runs dry, and the scan goes on. -/
theorem reach_turn {w : Scanning × Bool} {s' : PortScan}
    (h : ((scanning t s₀).watch false sawLateHit).Reachable w) (hended : w.1.ended = false)
    (hout : w.1.out = 0) (hnext : w.1.scan.next t = (none, s')) :
    ((scanning t s₀).watch false sawLateHit).Reachable
      (Scanning.turn { scan := s', dry := true }, w.2) := by
  have hdry : ((scanning t s₀).watch false sawLateHit).Reachable
      ({ scan := s', dry := true }, w.2) := by
    refine h.step (l := .next) ?_
    simp [Lts.watch, scanning, Scanning.step, sawLateHit, hended, hout, hnext]
  refine hdry.step (l := .turn) ?_
  simp [Lts.watch, scanning, Scanning.step, sawLateHit]

/-- The first pass over a host that has turned out near. -/
structure NearFirst (s : PortScan) : Prop where
  pass : s.pass = .first
  cancel : ∀ k, s.run.cancel k = false
  fixedMs : s.fixedMs = none
  near : s.learnedWait.isSome
  answered : s.fastestAnswerUs ≠ noAnswerUs
  cursors : s.nextRetry = 0 ∧ s.silentTwice = 0 ∧ s.answeredTwice = 0 ∧ s.nextThird = 0

/-- A port of a near host that is silent is deferred. -/
theorem NearFirst.defer {s : PortScan} (h : NearFirst s) (hleft : s.firstLeft t ≠ [])
    (hreach : ((scanning t s₀).watch false sawLateHit).Reachable (quiet s)) :
    ∃ s', NearFirst s' ∧ ((scanning t s₀).watch false sawLateHit).Reachable (quiet s') ∧
      (s'.firstLeft t).length + 1 = (s.firstLeft t).length ∧
      s'.retries.length = s.retries.length + 1 := by
  obtain ⟨p, s₁, hnext⟩ : ∃ p s₁, s.next t = (some p, s₁) := by
    refine PortScan.exists_next_some fun s' hnone => ?_
    obtain ⟨_, _, _, _, hend⟩ := PortScan.next_first_none h.pass hnone
    exact hleft (hend (h.cancel _))
  obtain ⟨nr, np, port, hs₁, hcons, hp⟩ := PortScan.next_first_some h.pass hnext
  have hpass₁ : s₁.pass = .first := by rw [hs₁]; exact h.pass
  have hdeferrable : p.deferrable = true := by
    obtain ⟨ms, hms⟩ := Option.isSome_iff_exists.mp h.near
    have hms₁ : s₁.learnedWait = some ms := by rw [hs₁]; exact hms
    have hfixed₁ : s₁.fixedMs = none := by rw [hs₁]; exact h.fixedMs
    have hanswered₁ : s₁.fastestAnswerUs ≠ noAnswerUs := by rw [hs₁]; exact h.answered
    rw [hp, PortScan.firstTry, hfixed₁]
    simp only [hanswered₁, if_false, hms₁]
    rfl
  obtain ⟨tr, ev, hu, hdone⟩ := PortScan.done_first hpass₁ p .filtered 0
  have hlearn : s₁.learn .filtered 0 = s₁ := by simp [PortScan.learn]
  have hdeferred : s₁.deferred p .filtered 0 = s.retries ++ [p.deferral] := by
    rw [PortScan.deferred, if_pos ⟨rfl, by simp [PortScan.earnsRetry, hdeferrable]⟩, hs₁]
  rw [hlearn, hdeferred] at hdone
  have hreported := reach_probe hreach hnext .filtered 0
  refine ⟨s₁.done p .filtered 0, ?_, by simpa [quiet] using hreported, ?_, ?_⟩
  · rw [hdone, hs₁]
    exact ⟨h.pass, h.cancel, h.fixedMs, h.near, h.answered, h.cursors⟩
  · rw [hcons, hdone]
    rfl
  · rw [hdone]
    simp

theorem NearFirst.defer_all {s : PortScan} (h : NearFirst s)
    (hreach : ((scanning t s₀).watch false sawLateHit).Reachable (quiet s)) :
    ∃ s', NearFirst s' ∧ ((scanning t s₀).watch false sawLateHit).Reachable (quiet s') ∧
      s'.firstLeft t = [] ∧ s'.retries.length = s.retries.length + (s.firstLeft t).length := by
  generalize hk : (s.firstLeft t).length = k
  induction k generalizing s with
  | zero => exact ⟨s, h, hreach, List.length_eq_zero_iff.mp hk, rfl⟩
  | succ k ih =>
    obtain ⟨s₁, h₁, hreach₁, hleft, hlen⟩ :=
      h.defer (t := t) (by rintro hnil; simp [hnil] at hk) hreach
    obtain ⟨s', h', hreach', hnil, hlen'⟩ := ih h₁ hreach₁ (by omega)
    exact ⟨s', h', hreach', hnil, by omega⟩

/-- The second pass, when `k` ports get a second try and all tries so far were refused. -/
structure Answering (k : Nat) (s : PortScan) : Prop where
  pass : s.pass = .retry
  cancel : ∀ i, s.run.cancel i = false
  length : s.retries.length = k
  answered : s.answeredTwice = s.nextRetry
  none_silent : s.silentTwice = 0 ∧ s.nextThird = 0

/-- The second pass hands out the next of its ports. -/
theorem Answering.hand {k : Nat} {s : PortScan} (h : Answering k s) (hlt : s.nextRetry < k) :
    ∃ p s', s.next t = (some p, s') ∧
      s' = { s with looks := s.looks + 1, nextRetry := s.nextRetry + 1 } ∧
      p.deferrable = false ∧ p.blind = false := by
  obtain ⟨p, s', hnext⟩ : ∃ p s', s.next t = (some p, s') := by
    refine PortScan.exists_next_some fun s' hnone => ?_
    have hle := (PortScan.next_retry_none h.pass hnone).2 (h.cancel _)
    have hlen := h.length
    omega
  obtain ⟨deferred, _, hs', hp⟩ := PortScan.next_retry_some h.pass hnext
  refine ⟨p, s', hnext, hs', ?_⟩
  rw [hp]
  exact ⟨rfl, rfl⟩

theorem Answering.answer {k : Nat} {s : PortScan} (h : Answering k s) (hlt : s.nextRetry < k)
    (hreach : ((scanning t s₀).watch false sawLateHit).Reachable (quiet s)) :
    ∃ s', Answering k s' ∧ ((scanning t s₀).watch false sawLateHit).Reachable (quiet s') ∧
      s'.nextRetry = s.nextRetry + 1 := by
  obtain ⟨p, s₁, hnext, hs₁, hplain⟩ := h.hand (t := t) hlt
  have hpass₁ : s₁.pass = .retry := by rw [hs₁]; exact h.pass
  obtain ⟨tr, ev, hu, hdone⟩ := PortScan.done_retry hpass₁ hplain .refused 1000
  obtain ⟨est, fast, hlearn⟩ := s₁.learn_frame .refused 1000
  have hreported := reach_probe hreach hnext .refused 1000
  have hanswered := h.answered
  refine ⟨s₁.done p .refused 1000, ?_, by simpa [quiet] using hreported, ?_⟩
  · rw [hdone, hlearn, hs₁]
    exact ⟨h.pass, h.cancel, h.length, by simpa using hanswered, h.none_silent⟩
  · rw [hdone, hlearn, hs₁]

theorem Answering.answer_up_to {k n : Nat} {s : PortScan} (h : Answering k s)
    (hle : s.nextRetry + n ≤ k)
    (hreach : ((scanning t s₀).watch false sawLateHit).Reachable (quiet s)) :
    ∃ s', Answering k s' ∧ ((scanning t s₀).watch false sawLateHit).Reachable (quiet s') ∧
      s'.nextRetry = s.nextRetry + n := by
  induction n generalizing s with
  | zero => exact ⟨s, h, hreach, rfl⟩
  | succ n ih =>
    obtain ⟨s₁, h₁, hreach₁, hnext⟩ := h.answer (t := t) (by omega) hreach
    obtain ⟨s', h', hreach', hnext'⟩ := ih h₁ (by omega) hreach₁
    exact ⟨s', h', hreach', by omega⟩

/-- The second pass is through, and it calls for a third. -/
structure Lossy (s : PortScan) : Prop where
  pass : s.pass = .retry
  cancel : ∀ i, s.run.cancel i = false
  through : s.nextRetry = s.retries.length
  counts : s.silentTwice = 1 ∧ s.answeredTwice = 1000 ∧ s.retries.length = 1001
  none_third : s.nextThird = 0

/-- The last of a thousand and one second tries is silent. -/
theorem Answering.lossy {s : PortScan} (h : Answering 1001 s) (hlast : s.nextRetry = 1000)
    (hreach : ((scanning t s₀).watch false sawLateHit).Reachable (quiet s)) :
    ∃ s', Lossy s' ∧ ((scanning t s₀).watch false sawLateHit).Reachable (quiet s') := by
  obtain ⟨p, s₁, hnext, hs₁, hplain⟩ := h.hand (t := t) (by omega)
  have hpass₁ : s₁.pass = .retry := by rw [hs₁]; exact h.pass
  obtain ⟨tr, ev, hu, hdone⟩ := PortScan.done_retry hpass₁ hplain .filtered 500000
  have hlearn : s₁.learn .filtered 500000 = s₁ := by simp [PortScan.learn]
  rw [hlearn, hs₁] at hdone
  have hreported := reach_probe hreach hnext .filtered 500000
  refine ⟨s₁.done p .filtered 500000, ?_, by simpa [quiet] using hreported⟩
  have hlength := h.length
  have hanswered := h.answered
  obtain ⟨hsilent, hthird⟩ := h.none_silent
  rw [← hs₁] at hdone
  rw [hdone, hs₁]
  refine ⟨h.pass, h.cancel, ?_, ?_, hthird⟩
  · simp [hlength, hlast]
  · simp [hlength, hlast, hanswered, hsilent]

/-- The third pass finds the port open, after the count was full. -/
theorem Lossy.late {s : PortScan} (h : Lossy s)
    (hreach : ((scanning t s₀).watch false sawLateHit).Reachable (quiet s)) :
    ∃ m, ((scanning t s₀).watch false sawLateHit).Reachable (m, true) ∧ m.ended = true ∧
      m.scan.pass = .third := by
  obtain ⟨hsilent, hanswered, hlength⟩ := h.counts
  -- the second pass has run dry
  obtain ⟨s₁, hnext₁⟩ : ∃ s₁, s.next t = (none, s₁) := by
    refine PortScan.exists_next_none fun p s' hnext => ?_
    obtain ⟨deferred, hget, _⟩ := PortScan.next_retry_some h.pass hnext
    rw [h.through, List.getElem?_eq_none (le_refl _)] at hget
    simp at hget
  have hs₁ := (PortScan.next_retry_none h.pass hnext₁).1
  have hneeds : s₁.needsThirdPass.1 = true := by
    unfold PortScan.needsThirdPass PortScan.stopRequested
    rw [hs₁]
    simp [h.cancel, hsilent, hanswered, hlength, lossyMinAnswers]
  have hpass₁ : s₁.pass = .retry := by rw [hs₁]; exact h.pass
  have hreach₁ := reach_turn hreach rfl rfl hnext₁
  have hthird : s₁.third = { s with looks := s.looks + 2, pass := .third } := by
    rw [PortScan.third, s₁.needsThirdPass_snd, hs₁]
  simp only [Scanning.turn, hpass₁, hneeds, if_true, hthird] at hreach₁
  -- the third pass has one port, and finds it open
  generalize hs₂ : ({ s with looks := s.looks + 2, pass := .third } : PortScan) = s₂ at hreach₁
  have hpass₂ : s₂.pass = .third := by rw [← hs₂]
  have hcounts₂ : s₂.silentTwice = 1 ∧ s₂.nextThird = 0 ∧ s₂.retries.length = 1001 ∧
      ∀ i, s₂.run.cancel i = false := by
    rw [← hs₂]
    exact ⟨hsilent, h.none_third, hlength, h.cancel⟩
  obtain ⟨hsilent₂, hnone₂, hlength₂, hcancel₂⟩ := hcounts₂
  obtain ⟨p, s₃, hnext₃⟩ : ∃ p s₃, s₂.next t = (some p, s₃) := by
    refine PortScan.exists_next_some fun s' hnone => ?_
    have hle := (PortScan.next_third_none hpass₂ hnone).2 (hcancel₂ _) (by omega)
    omega
  obtain ⟨deferred, _, _, hs₃, _⟩ := PortScan.next_third_some hpass₂ hnext₃
  have hreach₃ := reach_probe hreach₁ hnext₃ .open 1000
  have hpass₃ : s₃.pass = .third := by rw [hs₃]; exact hpass₂
  obtain ⟨tr, ev, hdone⟩ := PortScan.done_third hpass₃ p .open 1000
  obtain ⟨est, fast, hlearn⟩ := s₃.learn_frame .open 1000
  rw [hlearn] at hdone
  generalize hs₄ : s₃.done p .open 1000 = s₄ at hreach₃
  have hpass₄ : s₄.pass = .third := by rw [← hs₄, hdone]; exact hpass₃
  obtain ⟨s₅, hnext₅⟩ : ∃ s₅, s₄.next t = (none, s₅) := by
    refine PortScan.exists_next_none fun p s' hnext => ?_
    obtain ⟨deferred, hlt, _⟩ := PortScan.next_third_some hpass₄ hnext
    rw [← hs₄, hdone, hs₃] at hlt
    simp only [hsilent₂, hnone₂] at hlt
    omega
  have hpass₅ : s₅.pass = .third := (PortScan.next_keeps hnext₅).1.trans hpass₄
  have hreach₅ := reach_turn hreach₃ rfl rfl hnext₅
  simp only [Scanning.turn, hpass₅, hpass₂, and_self, decide_true] at hreach₅
  exact ⟨_, hreach₅, rfl, hpass₅⟩

end Lossy

/--
**A hit after 100%**: a scan of the ports 1 to 1002 of a host that refuses the first, loses the
other first tries, refuses a thousand of the second tries and answers the last port only when it
is tried for the third time.
-/
theorem lossy_host_hit_after_100 :
    let t : PortTable :=
      { entries := []
        byRank := []
        ascending := by decide
        port_pos := by decide
        built := by decide }
    let run : Run :=
      { output := { stream := true, json := true }
        cancel := fun _ => false
        memory := fun _ => true }
    ∃ m, (scanning t (PortScan.init run (10, 0, 0, 1) 1 1002 none {})).Reachable m ∧
      m.ended = true ∧ ¬HitsFirst m.scan.events := by
  intro t run
  let s₀ := PortScan.init run (10, 0, 0, 1) 1 1002 none {}
  have hstart : ((scanning t s₀).watch false sawLateHit).Reachable (quiet s₀) :=
    Lts.Reachable.of_init ⟨rfl, rfl⟩
  have hlen₀ : (s₀.firstLeft t).length = 1002 := by
    rw [(PortScan.firstLeft_perm_range t (s := s₀) rfl rfl).length_eq, List.length_range']
    rfl
  -- the first port is refused
  obtain ⟨p, s₁, hnext⟩ : ∃ p s₁, s₀.next t = (some p, s₁) := by
    refine PortScan.exists_next_some fun s' hnone => ?_
    obtain ⟨_, _, _, _, hend⟩ := PortScan.next_first_none rfl hnone
    rw [hend rfl] at hlen₀
    simp at hlen₀
  obtain ⟨nr, np, port, hs₁, hcons, _⟩ := PortScan.next_first_some rfl hnext
  have hreached := reach_probe hstart hnext .refused 1000
  obtain ⟨tr, ev, hu, hdone⟩ := PortScan.done_first (s := s₁) (by rw [hs₁]; rfl) p .refused 1000
  have hnear : NearFirst (s₁.done p .refused 1000) := by
    rw [hdone, hs₁]
    refine ⟨rfl, fun _ => rfl, rfl, ?_, ?_, rfl, rfl, rfl, rfl⟩
    · have hlearned : (s₀.learn .refused 1000).learnedWait.isSome := by decide
      exact hlearned
    · show min noAnswerUs 1000 ≠ noAnswerUs
      decide
  have hleft : ((s₁.done p .refused 1000).firstLeft t).length = 1001 := by
    have hsame : (s₁.done p .refused 1000).firstLeft t = s₁.firstLeft t := by
      rw [hdone]
      rfl
    rw [hcons, List.length_cons, ← hsame] at hlen₀
    omega
  have hretries : (s₁.done p .refused 1000).retries = [] := by
    rw [hdone, hs₁]
    rfl
  -- the others are silent, and get a second try
  have hquiet : ((scanning t s₀).watch false sawLateHit).Reachable
      (quiet (s₁.done p .refused 1000)) := by
    simpa [quiet] using hreached
  obtain ⟨s₂, hnear₂, hreach₂, hnil, hlen₂⟩ := hnear.defer_all hquiet
  rw [hleft, hretries] at hlen₂
  obtain ⟨s₃, hnext₃⟩ : ∃ s₃, s₂.next t = (none, s₃) := by
    refine PortScan.exists_next_none fun p s' hnext => ?_
    obtain ⟨_, _, _, _, hcons, _⟩ := PortScan.next_first_some hnear₂.pass hnext
    rw [hnil] at hcons
    simp at hcons
  obtain ⟨nr, np, hs₃, _⟩ := PortScan.next_first_none hnear₂.pass hnext₃
  have hreach₃ := reach_turn hreach₂ rfl rfl hnext₃
  have hpass₃ : s₃.pass = .first := by rw [hs₃]; exact hnear₂.pass
  simp only [Scanning.turn, hpass₃] at hreach₃
  have hanswering : Answering 1001 s₃.second := by
    obtain ⟨h1, h2, h3, h4⟩ := hnear₂.cursors
    rw [PortScan.second, hs₃]
    exact ⟨rfl, hnear₂.cancel, hlen₂, h3.trans h1.symm, h2, h4⟩
  have hfrom : s₃.second.nextRetry = 0 := by
    rw [PortScan.second, hs₃]
    exact hnear₂.cursors.1
  -- a thousand are refused, the last is silent again, and open at its third try
  obtain ⟨s₄, hanswering₄, hreach₄, hlast⟩ :=
    hanswering.answer_up_to (n := 1000) (by omega) hreach₃
  obtain ⟨s₅, hlossy, hreach₅⟩ := hanswering₄.lossy (by omega) hreach₄
  obtain ⟨m, hlate, hended, hpass⟩ := hlossy.late hreach₅
  refine ⟨m, hlate.unwatch, hended, ?_⟩
  obtain ⟨before, e, hits, heq, hbelow, hfull, hiff⟩ :=
    (Closing.of_reachable (fun _ => rfl) rfl (by decide) hlate).third hpass
  rw [heq, hitsFirst_of_shape hbelow hfull]
  intro hnone
  simp [hnone] at hiff

end NetScanner.Ports
