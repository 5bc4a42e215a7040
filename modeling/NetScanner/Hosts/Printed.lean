import NetScanner.Hosts.Results

/-!
# What a subnet scan prints on its way

The lines of a discovery come one after the other and stay (`scanNetwork_events`). Units are
counted by whoever finishes them while the main thread waits, so nothing is left to count in any
other stage (`Scan.idle`), and a scan that has printed its results takes no step more
(`Scan.returned_stays`).
-/

namespace NetScanner.Hosts

open Connects Infra Names Neighbors Net Progress

variable {o : SubnetScan} {s : Scan} {m : Move}

/-- The stages in which others finish units, and the main thread waits for their count. -/
def Stage.counting : Stage → Bool
  | .sweep _ _ _ => true
  | .ping _ _ _ => true
  | .sendArp _ _ _ => true
  | _ => false

/-- Everything is counted, but for what is being worked on. -/
def Scan.Idle (s : Scan) : Prop := s.stage.counting = false → s.counted

/-- What the main thread leaves alone, and when it goes on. -/
structure Move.Main (o : SubnetScan) (s : Scan) (env : MainEnv) (m : Move) : Prop where
  events : m.scan.events = s.events
  uncounted : m.scan.uncounted = s.uncounted
  unclaimed : m.scan.unclaimed = s.unclaimed
  /-- It waits until everything is counted. -/
  counted : s.stage.counting = true → m.scan.stage.counting = false → s.counted
  /-- The results are printed once. -/
  returned : ∀ lines, m.scan.stage = .returned lines →
    s.stage = .results ∧ lines = (reportResults s.toDiscovery o env.lookups env.stored).2

theorem Discovery.recordMac_events (d : Discovery) (ip : Ip) (mac : Mac) (stored : Bool) :
    (d.recordMac ip mac stored).events = d.events := by
  unfold Discovery.recordMac
  split <;> rfl

theorem reportResults_events (d : Discovery) (o : SubnetScan) (lookups : Lookups)
    (allocated : Bool) : (reportResults d o lookups allocated).1.events = d.events := by
  unfold reportResults
  simp only []
  split
  · rfl
  · split <;> rfl

theorem Scan.entryMove_main (s : Scan) (o : SubnetScan) (env : MainEnv) (table : List Neighbor)
    (entry : Neighbor) (rest : List Neighbor) (candidates : List Ip) :
    let s' := s.entryMove o env table entry rest candidates
    s'.events = s.events ∧ s'.uncounted = s.uncounted ∧ s'.unclaimed = s.unclaimed ∧
      ∀ lines, s'.stage ≠ .returned lines := by
  unfold Scan.entryMove
  cases entry.mac with
  | none =>
    simp only []
    split <;> exact ⟨rfl, rfl, rfl, by simp⟩
  | some mac =>
    simp only []
    split <;> exact ⟨s.recordMac_events entry.ip mac env.recorded, rfl, rfl, by simp⟩

theorem Scan.mainMove_main {env : MainEnv} (hm : s.mainMove o env = some m) : m.Main o s env := by
  unfold Scan.mainMove at hm
  split at hm
  · next hstage =>
    cases hm
    refine ⟨rfl, rfl, rfl, by simp [hstage, Stage.counting], ?_⟩
    intro lines hlines
    have hnot : ∀ b : Bool,
        (if b = true then Stage.listen else Stage.failed) ≠ .returned lines := by
      intro b
      cases b <;> simp
    exact absurd hlines (hnot env.stored)
  · next hstage =>
    cases hm
    exact ⟨rfl, rfl, rfl, by simp [hstage, Stage.counting], by simp⟩
  · next hstage =>
    cases hm
    exact ⟨rfl, rfl, rfl, by simp [hstage, Stage.counting], by simp⟩
  · split at hm
    · next hready =>
      cases hm
      exact ⟨rfl, rfl, rfl, fun _ _ => hready.1, by simp⟩
    · cases hm
  · next hstage =>
    cases hm
    exact ⟨rfl, rfl, rfl, by simp [hstage, Stage.counting], by simp⟩
  · next hstage =>
    split at hm <;> cases hm <;>
      exact ⟨rfl, rfl, rfl, by simp [hstage, Stage.counting], by simp⟩
  · next table entry rest candidates hstage =>
    cases hm
    obtain ⟨hevents, huncounted, hunclaimed, hnot⟩ :=
      s.entryMove_main o env table entry rest candidates
    exact ⟨hevents, huncounted, hunclaimed, by simp [hstage, Stage.counting],
      fun lines hlines => absurd hlines (hnot lines)⟩
  · next hstage =>
    split at hm <;> cases hm <;>
      exact ⟨rfl, rfl, rfl, by simp [hstage, Stage.counting], by simp⟩
  · next table entry rest candidates hstage =>
    cases hm
    refine ⟨?_, ?_, ?_, by simp [hstage, Stage.counting], ?_⟩
    all_goals
      unfold Scan.splitMove
      split
      · simp
      · split <;> simp
  · next candidates waiting alive hstage =>
    split at hm
    · next hready =>
      cases hm
      refine ⟨?_, ?_, ?_, fun _ _ => hready.1, ?_⟩
      all_goals
        unfold Scan.pingedAll
        simp only []
        split <;> simp
    · cases hm
  · split at hm
    · next hready =>
      cases hm
      exact ⟨rfl, rfl, rfl, fun _ _ => hready.1, by simp⟩
    · cases hm
  · next hstage =>
    cases hm
    cases s.listener <;> exact ⟨rfl, rfl, rfl, by simp [hstage, Stage.counting], by simp⟩
  · next hstage =>
    split at hm
    · cases hm
      exact ⟨rfl, rfl, rfl, by simp [hstage, Stage.counting], by simp⟩
    · cases hm
  · next hstage =>
    cases hm
    refine ⟨reportResults_events _ o _ _, rfl, rfl, by simp [hstage, Stage.counting], ?_⟩
    intro lines hlines
    cases hlines
    exact ⟨hstage, rfl⟩
  · cases hm
  · cases hm

/-- What every step keeps of a scan. -/
structure Move.Keeps (s : Scan) (m : Move) : Prop where
  events : s.events <+: m.scan.events
  idle : s.Idle → m.scan.Idle

/-- A step of someone the main thread waits for. -/
theorem Move.Keeps.of_counting (hevents : m.scan.events = s.events)
    (hstage : m.scan.stage.counting = true) : m.Keeps s where
  events := by rw [hevents]
  idle _ hnot := by
    rw [hstage] at hnot
    cases hnot

/-- What the listener leaves alone. -/
theorem Scan.listenerMove_kept {env : ListenerEnv} (hm : s.listenerMove o env = some m) :
    m.scan.events = s.events ∧ m.scan.uncounted = s.uncounted ∧
      m.scan.unclaimed = s.unclaimed := by
  unfold Scan.listenerMove at hm
  split at hm
  · cases hm
  · cases hm
    exact ⟨rfl, rfl, rfl⟩
  · split at hm
    · cases hm
      exact ⟨rfl, rfl, rfl⟩
    · cases hm
      exact ⟨rfl, rfl, rfl⟩
    · split at hm
      · cases hm
        exact ⟨rfl, rfl, rfl⟩
      · split at hm <;> cases hm <;> exact ⟨rfl, rfl, rfl⟩
  · cases hm
    exact ⟨rfl, rfl, rfl⟩
  · split at hm
    · cases hm
      exact ⟨rfl, rfl, rfl⟩
    · cases hm
      refine ⟨?_, rfl, rfl⟩
      simp only [Discovery.putName]
      split <;> rfl
  · cases hm

theorem Scan.move_keeps {label : ScanLabel} (hm : s.move o label = some m) : m.Keeps s := by
  cases label with
  | main env =>
    have h := Scan.mainMove_main hm
    refine ⟨by rw [h.events], fun hidle hnot => ?_⟩
    rw [Scan.counted, h.uncounted, h.unclaimed]
    cases hcounting : s.stage.counting with
    | false => exact hidle hcounting
    | true => exact h.counted hcounting hnot
  | listener env =>
    obtain ⟨hevents, huncounted, hunclaimed⟩ := Scan.listenerMove_kept hm
    refine ⟨by rw [hevents], fun hidle hnot => ?_⟩
    rw [Scan.listenerMove_stage hm] at hnot
    rw [Scan.counted, huncounted, hunclaimed]
    exact hidle hnot
  | next stop =>
    simp only [Scan.move] at hm
    unfold Scan.nextMove at hm
    split at hm
    · split at hm <;> cases hm <;> exact .of_counting rfl rfl
    · cases hm
  | verdict probe outcome stored =>
    simp only [Scan.move] at hm
    unfold Scan.verdictMove at hm
    split at hm
    · split at hm
      · cases hm
        exact .of_counting rfl rfl
      · cases hm
    · cases hm
  | pinged index answered stored =>
    simp only [Scan.move] at hm
    unfold Scan.pingedMove at hm
    split at hm
    · split at hm
      · cases hm
        exact .of_counting rfl rfl
      · cases hm
    · cases hm
  | worker i env =>
    simp only [Scan.move] at hm
    unfold Scan.workerMove at hm
    split at hm
    · split at hm
      · cases hm
      · split at hm
        · cases hm
          exact .of_counting rfl rfl
        · split at hm <;> cases hm <;> exact .of_counting rfl rfl
      · split at hm
        · cases hm
          exact .of_counting rfl rfl
        · cases hm
          exact .of_counting (s.recordMac_events _ _ _) rfl
      · cases hm
        exact .of_counting rfl rfl
      · cases hm
    · cases hm
  | count =>
    simp only [Scan.move] at hm
    unfold Scan.countMove at hm
    split at hm
    · cases hm
    · next uncounted hsome =>
      cases hm
      refine ⟨List.prefix_rfl, fun hidle hnot => ?_⟩
      have := (hidle hnot).1
      omega
  | claim =>
    simp only [Scan.move] at hm
    unfold Scan.claimMove at hm
    split at hm
    · cases hm
    · next unclaimed hsome =>
      cases hm
      refine ⟨List.prefix_append _ _, fun hidle hnot => ?_⟩
      have := (hidle hnot).2
      omega

theorem Move.done_events (m : Move) : m.scan.events <+: (m.done o).events := by
  unfold Move.done
  split
  · exact List.prefix_rfl
  · simp only [Discovery.reportHost]
    split
    · exact List.prefix_rfl
    · split
      · exact List.prefix_rfl
      · split
        · exact List.prefix_append _ _
        · exact List.prefix_rfl

theorem Move.done_counted (m : Move) : (m.done o).counted ↔ m.scan.counted := by
  unfold Move.done
  split <;> rfl

/-- **What was printed stays printed.** -/
theorem scanNetwork_events {s' : Scan} {label : ScanLabel}
    (h : (scanNetwork o).step s label = some s') : s.events <+: s'.events := by
  obtain ⟨m, hm, rfl⟩ := scanNetwork_step h
  exact (Scan.move_keeps hm).events.trans m.done_events

theorem Scan.idle (h : (scanNetwork o).Reachable s) : s.Idle := by
  refine h.invariant (I := Scan.Idle) ?_ ?_
  · rintro s rfl
    exact fun _ => ⟨rfl, rfl⟩
  · intro s label s' _ hidle hs hnot
    obtain ⟨m, hm, rfl⟩ := scanNetwork_step hs
    rw [Move.done_stage] at hnot
    exact m.done_counted.mpr ((Scan.move_keeps hm).idle hidle hnot)

theorem scanNetwork_results (hstage : s.stage = .results) (env : MainEnv) :
    (scanNetwork o).step s (.main env) = some { s with
      toDiscovery := (reportResults s.toDiscovery o env.lookups env.stored).1
      stage := .returned (reportResults s.toDiscovery o env.lookups env.stored).2 } := by
  simp only [scanNetwork, Scan.move, Scan.mainMove, hstage, Option.map_some, Move.done]

/-- The results are printed by one step. -/
theorem scanNetwork_returned {s' : Scan} {label : ScanLabel} {lines : List ResultLine}
    (hreach : (scanNetwork o).Reachable s) (h : (scanNetwork o).step s label = some s')
    (hlines : s'.stage = .returned lines) (hnot : ∀ lines, s.stage ≠ .returned lines) :
    s.stage = .results ∧ ∃ env, label = .main env ∧
      lines = (reportResults s.toDiscovery o env.lookups env.stored).2 := by
  obtain ⟨m, hm, rfl⟩ := scanNetwork_step h
  rw [Move.done_stage] at hlines
  by_cases hmain : ∃ env, label = .main env
  · obtain ⟨env, rfl⟩ := hmain
    obtain ⟨hstage, hsame⟩ := (Scan.mainMove_main hm).returned lines hlines
    exact ⟨hstage, env, rfl, hsame⟩
  · rcases (Scan.closed hreach).other hm (fun env heq => hmain ⟨env, heq⟩) with
      hclosing | ⟨hstage, -⟩
    · rw [hlines] at hclosing
      cases hclosing
    · exact absurd (hstage.symm.trans hlines) (hnot lines)

/-- **After the results nothing moves any more.** -/
theorem Scan.returned_stays {lines : List ResultLine} (hreach : (scanNetwork o).Reachable s)
    (hlines : s.stage = .returned lines) (label : ScanLabel) :
    (scanNetwork o).step s label = none := by
  have hcounted : s.counted := Scan.idle hreach (by rw [hlines]; rfl)
  have hsilent := (Scan.closed hreach).silent (by rw [hlines]; rfl)
  show (s.move o label).map _ = none
  rw [Option.map_eq_none_iff]
  cases label with
  | main env => simp [Scan.move, Scan.mainMove, hlines]
  | listener env =>
    rcases hsilent with hoff | hended
    · simp [Scan.move, Scan.listenerMove, hoff]
    · simp [Scan.move, Scan.listenerMove, hended]
  | next stop => simp [Scan.move, Scan.nextMove, hlines]
  | verdict probe outcome stored => simp [Scan.move, Scan.verdictMove, hlines]
  | pinged index answered stored => simp [Scan.move, Scan.pingedMove, hlines]
  | worker i env => simp [Scan.move, Scan.workerMove, hlines]
  | count => simp [Scan.move, Scan.countMove, hcounted.1]
  | claim => simp [Scan.move, Scan.claimMove, hcounted.2]

end NetScanner.Hosts
