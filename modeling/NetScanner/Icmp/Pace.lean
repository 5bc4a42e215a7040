import NetScanner.Icmp.SendTime

/-!
# How many echoes one iteration of a ping sweep sends

`send_budget` works the send rate out from all the time a sweep has run and all the echoes it
has sent. What a sweep was allowed and could not send, because as many echoes as it may have
were in flight or every socket was full, is not lost: it adds to the budget of the iterations
that follow, and the first of them that has room sends all of it at once.

`Pace` is what a watcher notes of it. `iteration_within_limit` says that a sweep keeps within its
rate from one iteration to the next as long as nothing is saved up for it to send, and
`savings_sent_at_once` that savings go out whenever the sockets take them.
-/

namespace NetScanner.Icmp

open Infra

/-! ## Watching the pace -/

/-- An echo went out. -/
def SweepEvent.sent : SweepEvent → Bool
  | .echo _ .ok => true
  | _ => false

/-- How many echoes went out. -/
def sentIn (log : List (Int × SweepEvent)) : Nat := log.countP fun e => e.2.sent

/-- What a watcher notes of the iterations of a sweep. -/
structure Pace where
  /-- When the last iteration read the clock, or the sweep started. -/
  previous : Int := 0
  /-- When this iteration did. -/
  current : Int := 0
  /-- How long the log was then. -/
  mark : Nat := 0
  /-- No iteration had savings to send. -/
  steady : Bool := true

namespace Pace

/-- `SENDS_PER_MS` for each millisecond since the last iteration, and for the one that runs. -/
def limit (p : Pace) : Int := sendsPerMs * (p.current - p.previous + 1)

/-- How many echoes this iteration has sent. -/
def sent (p : Pace) (s : SweepState) : Nat := sentIn (s.log.drop p.mark)

end Pace

/-- The sweep has nothing saved up from before its last iteration, or cannot send it now: it is
to stop, or there are not that many hosts left, or not that much room in flight. -/
def SweepState.noSavings (c : SweepConfig) (p : Pace) (env : SweepEnv) (s : SweepState) : Bool :=
  s.stopped = true ∨ env.stop = true ∨ sendsPerMs * (p.previous - s.started) ≤ s.next ∨
    (c.count : Int) - s.next ≤ p.limit ∨ (c.maxInFlight : Int) - s.inFlight ≤ p.limit

/-- What the watcher notes at each step. -/
def Pace.see (c : SweepConfig) (p : Pace) (s : SweepState) : SweepLabel → Pace
  | .run env =>
    match s.pc with
    | .begin => { p with previous := s.clock, current := s.clock }
    | .head => { p with previous := p.current, current := s.clock, mark := s.log.length }
    | .stopCheck => { p with steady := p.steady && s.noSavings c p env }
    | _ => p
  | _ => p

/-- The sweep, with a watcher for its pace. -/
def pacedSweep (c : SweepConfig) : Lts (SweepState × Pace) SweepLabel :=
  (sweep c).watch {} (Pace.see c)

variable {c : SweepConfig}

/-! ## What the log gains -/

theorem sentIn_append (as bs : List (Int × SweepEvent)) :
    sentIn (as ++ bs) = sentIn as + sentIn bs := List.countP_append

/-- No step but a send puts an echo out. -/
theorem Change.silent {k k' : Core} (h : Change c k k') (hnext : k'.next = k.next) :
    ∃ l, k'.log = k.log ++ l ∧ sentIn l = 0 := by
  cases h with
  | rest | tick | skip => exact ⟨[], (List.append_nil _).symm, rfl⟩
  | arrive | expire | stop | busy | ignore | drained => exact ⟨_, rfl, rfl⟩
  | sent | unsent => exact absurd hnext (Nat.succ_ne_self _)
  | answer => exact ⟨_, List.append_assoc _ _ _, rfl⟩
  | quiet n =>
    refine ⟨_, rfl, ?_⟩
    rw [sentIn, List.countP_eq_zero]
    simp [SweepEvent.sent]

theorem Pace.sent_append {p : Pace} {s s' : SweepState} {l : List (Int × SweepEvent)}
    (hmark : p.mark ≤ s.log.length) (hlog : s'.log = s.log ++ l) :
    p.sent s' = p.sent s + sentIn l := by
  unfold Pace.sent
  rw [hlog, List.drop_append_of_le_length hmark, sentIn_append]

/-! ## Clock readings -/

/-- The sweep is in its loop. -/
def Pc.looping : Pc → Bool
  | .begin | .returned _ => false
  | _ => true

/-- The watcher's clock readings are those of the sweep. -/
structure Readings (s : SweepState) (p : Pace) : Prop where
  mark_le : p.mark ≤ s.log.length
  looping : s.pc.looping = true → s.started ≤ p.current ∧ p.current ≤ s.clock ∧ 0 < s.nsocks
  reading : s.pc.reading = true → s.now = p.current ∧ s.started ≤ p.previous ∧
    p.previous ≤ p.current

theorem Readings.limit_nonneg {s : SweepState} {p : Pace} (h : Readings s p)
    (hread : s.pc.reading = true) : 0 ≤ p.limit := by
  obtain ⟨-, -, hle⟩ := h.reading hread
  unfold Pace.limit sendsPerMs
  omega

/-- A step inside an iteration. -/
theorem Readings.frame {s s' : SweepState} {p : Pace} (h : Readings s p)
    (hchange : Change c s.toCore s'.toCore) (hread : s.pc.reading = true)
    (hfixed : s'.started = s.started ∧ s'.nsocks = s.nsocks)
    (hnow : s'.now = s.now) (steady : Bool) :
    Readings s' { p with steady } := by
  obtain ⟨hlog, hclock, -⟩ := hchange.frame
  have hloop : s.pc.looping = true := by
    generalize s.pc = pc at hread
    cases pc <;> simp_all [Pc.reading, Pc.looping]
  obtain ⟨hstarted, hle, hsocks⟩ := h.looping hloop
  refine ⟨Nat.le_trans h.mark_le hlog.length_le, fun _ => ?_, fun _ => ?_⟩
  · rw [hfixed.1, hfixed.2]
    exact ⟨hstarted, Int.le_trans hle hclock, hsocks⟩
  · rw [hfixed.1, hnow]
    exact h.reading hread

theorem Readings.begin {env : SweepEnv} {s : SweepState} {p : Pace} (h : Readings s p) :
    Readings (s.begin c env) { p with previous := s.clock, current := s.clock } := by
  unfold SweepState.begin
  split
  · exact ⟨h.mark_le, by simp [Pc.looping], by simp [Pc.reading]⟩
  · simp only []
    split
    · exact ⟨h.mark_le, by simp [Pc.looping], by simp [Pc.reading]⟩
    · next hsocks =>
      split
      · exact ⟨h.mark_le, by simp [Pc.looping], by simp [Pc.reading]⟩
      · exact ⟨h.mark_le, fun _ => ⟨Int.le_refl _, Int.le_refl _, Nat.pos_of_ne_zero hsocks⟩,
          by simp [Pc.reading]⟩

/-- The clock is read at the head of the loop. -/
theorem Readings.head {s : SweepState} {p : Pace} (h : Readings s p) (hpc : s.pc = .head) :
    Readings { s with now := s.clock, pc := .expire }
      { p with previous := p.current, current := s.clock, mark := s.log.length } := by
  obtain ⟨hstarted, hle, hsocks⟩ := h.looping (by rw [hpc]; rfl)
  exact ⟨Nat.le_refl _, fun _ => ⟨Int.le_trans hstarted hle, Int.le_refl _, hsocks⟩,
    fun _ => ⟨rfl, hstarted, hle⟩⟩

theorem Readings.run {env : SweepEnv} {s s' : SweepState} {p : Pace} (h : Readings s p)
    (hs : s.run c env = some s') : Readings s' (p.see c s (.run env)) := by
  have hmoves := run_moves hs
  have hchange := run_change hs
  by_cases hbegin : s.pc = .begin
  · simp only [SweepState.run, hbegin, Option.some.injEq] at hs
    rw [← hs]
    simp only [Pace.see, hbegin]
    exact h.begin
  by_cases hhead : s.pc = .head
  · simp only [SweepState.run, hhead, Option.some.injEq] at hs
    rw [← hs]
    simp only [Pace.see, hhead]
    exact h.head hhead
  have hread : s.pc.reading = true := by
    cases hpc : s.pc <;> simp_all [Pc.reading, SweepState.run]
  have hframe := h.frame hchange hread (hmoves.fixed hbegin) (hmoves.now hhead)
  unfold Pace.see
  simp only []
  split
  · next hpc => exact absurd hpc hbegin
  · next hpc => exact absurd hpc hhead
  · exact hframe _
  · exact hframe _

/-! ## Within the limit -/

theorem sendBudget_le {elapsedMs : Int} (h : 0 ≤ elapsedMs) (sent : Nat) :
    (sendBudget elapsedMs sent : Int) ≤ max 0 (sendsPerMs * (elapsedMs + 1) - sent) := by
  have hcast : ((elapsedMs + 1) % 2 ^ 64).toNat ≤ (elapsedMs + 1).toNat := by omega
  have hwrap : ((elapsedMs + 1) % 2 ^ 64).toNat * sendsPerMs % 2 ^ 64 ≤
      (elapsedMs + 1).toNat * sendsPerMs :=
    Nat.le_trans (Nat.mod_le _ _) (Nat.mul_le_mul_right _ hcast)
  unfold sendBudget
  simp only []
  unfold sendsPerMs at hwrap ⊢
  split <;> omega

/-- The send `while` stops within the limit. -/
def Bounded (c : SweepConfig) (s : SweepState) (p : Pace) : Prop :=
  s.stopped = true ∨ (p.sent s : Int) + s.budget ≤ p.limit ∨
    (p.sent s : Int) + (c.count - s.next) ≤ p.limit ∨
      (p.sent s : Int) + (c.maxInFlight - s.inFlight) ≤ p.limit

/-- What an iteration has sent, and what it may still send. -/
structure Within (c : SweepConfig) (s : SweepState) (p : Pace) : Prop where
  fresh : s.pc = .begin ∨ s.pc = .expire ∨ s.pc = .stopCheck → p.sent s = 0
  bounded : p.steady = true → s.pc = .send → Bounded c s p
  sent_le : p.steady = true → (p.sent s : Int) ≤ p.limit

/-- A step that sends nothing. -/
theorem Within.silent {s s' : SweepState} {p : Pace} (h : Within c s p)
    (hmark : p.mark ≤ s.log.length) (hchange : Change c s.toCore s'.toCore)
    (hnext : s'.next = s.next)
    (hfresh : s'.pc = .begin ∨ s'.pc = .expire ∨ s'.pc = .stopCheck → p.sent s = 0)
    (hsend : s'.pc ≠ .send) : Within c s' p := by
  obtain ⟨l, hlog, hl⟩ := hchange.silent hnext
  have hsent : p.sent s' = p.sent s := by
    rw [Pace.sent_append hmark hlog, hl, Nat.add_zero]
  refine ⟨?_, fun _ hpc => absurd hpc hsend, ?_⟩
  · intro hpc
    rw [hsent]
    exact hfresh hpc
  · intro hsteady
    rw [hsent]
    exact h.sent_le hsteady

/-- The clock and the network send nothing either. -/
theorem Within.environment {s s' : SweepState} {p : Pace} (h : Within c s p)
    (hmark : p.mark ≤ s.log.length) (hchange : Change c s.toCore s'.toCore)
    (hpc : s'.pc = s.pc)
    (hsame : s'.next = s.next ∧ s'.inFlight = s.inFlight ∧ s'.stopped = s.stopped ∧
      s'.budget = s.budget) : Within c s' p := by
  obtain ⟨hnext, hinFlight, hstopped, hbudget⟩ := hsame
  obtain ⟨l, hlog, hl⟩ := hchange.silent hnext
  have hsent : p.sent s' = p.sent s := by
    rw [Pace.sent_append hmark hlog, hl, Nat.add_zero]
  refine ⟨?_, ?_, ?_⟩
  · rw [hpc, hsent]
    exact h.fresh
  · unfold Bounded
    rw [hpc, hsent, hnext, hinFlight, hstopped, hbudget]
    exact h.bounded
  · rw [hsent]
    exact h.sent_le

/-- A new iteration has sent nothing. -/
theorem Within.head {s : SweepState} {p : Pace} (hread : Readings s p) (hpc : s.pc = .head) :
    Within c { s with now := s.clock, pc := .expire }
      { p with previous := p.current, current := s.clock, mark := s.log.length } := by
  obtain ⟨-, hle, -⟩ := hread.looping (by rw [hpc]; rfl)
  have hsent : sentIn (s.log.drop s.log.length) = 0 := by
    rw [List.drop_length]
    rfl
  refine ⟨fun _ => hsent, by simp, fun _ => ?_⟩
  show ((sentIn (s.log.drop s.log.length) : Nat) : Int) ≤ sendsPerMs * (s.clock - p.current + 1)
  rw [hsent]
  unfold sendsPerMs
  omega

theorem stopCheck_stopped (env : SweepEnv) (s : SweepState) :
    (s.stopCheck env).stopped = (s.stopped || env.stop) := by
  unfold SweepState.stopCheck
  simp only []
  split
  · next h =>
    rw [h.1, h.2]
    rfl
  · next h =>
    show s.stopped = _
    cases hs : s.stopped with
    | true => rfl
    | false => simpa [hs] using h

theorem stopCheck_keeps (env : SweepEnv) (s : SweepState) :
    (s.stopCheck env).next = s.next ∧ (s.stopCheck env).inFlight = s.inFlight ∧
      (s.stopCheck env).budget = sendBudget (s.now - s.started) s.next := by
  unfold SweepState.stopCheck
  simp only []
  split <;> exact ⟨rfl, rfl, rfl⟩

theorem Within.stopCheck {env : SweepEnv} {s : SweepState} {p : Pace} (h : Within c s p)
    (hread : Readings s p) (hpc : s.pc = .stopCheck) :
    Within c (s.stopCheck env) { p with steady := p.steady && s.noSavings c p env } := by
  have hreading : s.pc.reading = true := by rw [hpc]; rfl
  have hlimit := hread.limit_nonneg hreading
  obtain ⟨hnow, hstarted, hle⟩ := hread.reading hreading
  obtain ⟨hnext, hinFlight, hbudget⟩ := stopCheck_keeps env s
  obtain ⟨l, hlog, hl⟩ := (stopCheck_change (c := c) env s).silent hnext
  have hsent : p.sent (s.stopCheck env) = 0 := by
    rw [Pace.sent_append hread.mark_le hlog, hl, h.fresh (Or.inr (Or.inr hpc))]
  refine ⟨fun _ => hsent, ?_, ?_⟩
  · intro hsteady _
    have hsavings := (Bool.and_eq_true _ _ ▸ hsteady).2
    show Bounded c (s.stopCheck env) p
    unfold Bounded
    rw [hsent, hnext, hinFlight, hbudget, stopCheck_stopped]
    rcases of_decide_eq_true hsavings with hstop | hstop | hspent | hhosts | hroom
    · exact Or.inl (by rw [hstop, Bool.true_or])
    · exact Or.inl (by rw [hstop, Bool.or_true])
    · -- what was allowed up to the last iteration is used up
      have hbudget := sendBudget_le (show 0 ≤ s.now - s.started by omega) s.next
      refine Or.inr (Or.inl ?_)
      unfold Pace.limit sendsPerMs at *
      omega
    · exact Or.inr (Or.inr (Or.inl (by omega)))
    · exact Or.inr (Or.inr (Or.inr (by omega)))
  · intro _
    show ((p.sent (s.stopCheck env) : Nat) : Int) ≤ p.limit
    rw [hsent]
    exact hlimit

/-- An echo that went out, or one that failed for good. -/
theorem Within.sendNext {s s' : SweepState} {p : Pace} {n : Nat} (h : Within c s p)
    (hpc : s.pc = .send ∧ s'.pc = .send) (hsending : s.sending c = true) (hn : n ≤ 1)
    (hsent : p.sent s' = p.sent s + n) (hstopped : s'.stopped = s.stopped)
    (hnext : s'.next = s.next + 1) (hinFlight : s'.inFlight = s.inFlight + n)
    (hbudget : s'.budget = s.budget - 1) : Within c s' p := by
  obtain ⟨hgo, hhosts, hroom, hleft⟩ := of_decide_eq_true hsending
  refine ⟨by simp [hpc.2], ?_, ?_⟩
  · intro hsteady _
    unfold Bounded
    rw [hsent, hstopped, hnext, hinFlight, hbudget]
    rcases h.bounded hsteady hpc.1 with hstop | hspent | hfew | hfull
    · exact Or.inl hstop
    · exact Or.inr (Or.inl (by omega))
    · exact Or.inr (Or.inr (Or.inl (by omega)))
    · exact Or.inr (Or.inr (Or.inr (by omega)))
  · intro hsteady
    rw [hsent]
    rcases h.bounded hsteady hpc.1 with hstop | hspent | hfew | hfull
    · rw [hgo] at hstop
      cases hstop
    all_goals omega

theorem Within.send {env : SweepEnv} {s : SweepState} {p : Pace} (h : Within c s p)
    (hmark : p.mark ≤ s.log.length) (hpc : s.pc = .send) : Within c (s.send c env) p := by
  have hchange := send_change (c := c) env s
  have hstep := send_step (c := c) env s
  generalize s.send c env = s' at hchange hstep
  cases hstep with
  | idle | full => exact h.silent hmark hchange rfl (by simp) (by simp)
  | sent hsending =>
    obtain ⟨-, -, hroom, -⟩ := of_decide_eq_true hsending
    have hinc := sizeInc_eq (n := s.inFlight) (Nat.lt_of_le_of_lt hroom c.maxInFlight_lt)
    refine h.sendNext ⟨hpc, hpc⟩ hsending (Nat.le_refl 1) ?_ rfl rfl hinc rfl
    exact Pace.sent_append (l := [(s.clock, .echo s.next .ok)]) hmark rfl
  | failed o hsending _ ho =>
    refine h.sendNext (n := 0) ⟨hpc, hpc⟩ hsending (Nat.zero_le 1) ?_ rfl rfl rfl rfl
    have hsilent : sentIn [(s.clock, .echo s.next o), (s.clock, .pinged s.next false)] = 0 := by
      cases o with
      | ok => exact absurd rfl ho
      | busy | failed => rfl
    rw [Pace.sent_append hmark (List.append_assoc _ _ _)]
    exact congrArg _ hsilent

/-! ## Whole runs -/

/-- A step that is neither at the head of the loop nor between the stop check and the sends. -/
theorem Within.rest {env : SweepEnv} {s s' : SweepState} {p : Pace} (h : Within c s p)
    (hmark : p.mark ≤ s.log.length) (hs : s.run c env = some s') (hhead : s.pc ≠ .head)
    (hstop : s.pc ≠ .stopCheck) (hsend : s.pc ≠ .send) : Within c s' p := by
  have hleads := (run_moves hs).leads
  obtain ⟨hnext, -⟩ := (run_moves hs).unsent hsend
  refine h.silent hmark (run_change hs) hnext ?_ ?_
  · intro hfresh
    apply h.fresh
    rcases hfresh with hpc | hpc | hpc <;> rw [hpc] at hleads <;>
      cases hat : s.pc <;> simp_all [Pc.leadsTo]
  · intro hpc
    rw [hpc] at hleads
    cases hat : s.pc <;> simp_all [Pc.leadsTo]

theorem Within.run {env : SweepEnv} {s s' : SweepState} {p : Pace} (h : Within c s p)
    (hread : Readings s p) (hs : s.run c env = some s') :
    Within c s' (p.see c s (.run env)) := by
  have hmark := hread.mark_le
  cases hpc : s.pc with
  | begin =>
    -- the sweep starts: two echoes are within the limit, and none has gone out
    have hsent := h.fresh (Or.inl hpc)
    have hstart : Within c s { p with previous := s.clock, current := s.clock } := by
      refine ⟨h.fresh, by simp [hpc], fun _ => ?_⟩
      show ((p.sent s : Nat) : Int) ≤ sendsPerMs * (s.clock - s.clock + 1)
      rw [hsent]
      unfold sendsPerMs
      omega
    simp only [Pace.see, hpc]
    exact hstart.rest hmark hs (by simp [hpc]) (by simp [hpc]) (by simp [hpc])
  | head =>
    simp only [SweepState.run, hpc, Option.some.injEq] at hs
    rw [← hs]
    simp only [Pace.see, hpc]
    exact Within.head hread hpc
  | stopCheck =>
    simp only [SweepState.run, hpc, Option.some.injEq] at hs
    rw [← hs]
    simp only [Pace.see, hpc]
    exact h.stopCheck hread hpc
  | send =>
    simp only [SweepState.run, hpc, Option.some.injEq] at hs
    rw [← hs]
    simp only [Pace.see, hpc]
    exact h.send hmark hpc
  | expire | endCheck | poll _ | drain _ _ =>
    simp only [Pace.see, hpc]
    exact h.rest hmark hs (by simp [hpc]) (by simp [hpc]) (by simp [hpc])
  | returned r => simp [SweepState.run, hpc] at hs

/-- The invariant of a watched sweep. -/
structure Paced (c : SweepConfig) (p : SweepState × Pace) : Prop where
  readings : Readings p.1 p.2
  within : Within c p.1 p.2

theorem pacedSweep_paced {p : SweepState × Pace} (h : (pacedSweep c).Reachable p) :
    Paced c p := by
  refine h.invariant ?_ ?_
  · rintro ⟨s, p⟩ ⟨⟨clock, rfl⟩, rfl⟩
    refine ⟨⟨Nat.le_refl _, by simp [SweepState.init, Pc.looping], by
      simp [SweepState.init, Pc.reading]⟩, ⟨fun _ => rfl, by simp [SweepState.init], ?_⟩⟩
    intro _
    show (0 : Int) ≤ sendsPerMs * (0 - 0 + 1)
    decide
  · rintro ⟨s, p⟩ l ⟨s', p'⟩ hreach ⟨hread, hwithin⟩ hs
    obtain ⟨hstep, hnote⟩ := Lts.watch_step hs
    simp only at hstep hnote
    have hchange := step_change hstep
    rw [hnote]
    cases l with
    | tick ms =>
      cases hstep
      refine ⟨⟨hread.mark_le, ?_, hread.reading⟩,
        hwithin.environment hread.mark_le hchange rfl ⟨rfl, rfl, rfl, rfl⟩⟩
      intro hloop
      obtain ⟨hstarted, hle, hsocks⟩ := hread.looping hloop
      refine ⟨hstarted, ?_, hsocks⟩
      exact Int.le_trans hle (Int.le_add_of_nonneg_right (Int.natCast_nonneg ms))
    | arrive k d =>
      simp only [sweep, SweepState.step] at hstep
      split at hstep
      · cases hstep
        refine ⟨⟨?_, hread.looping, hread.reading⟩,
          hwithin.environment hread.mark_le hchange rfl ⟨rfl, rfl, rfl, rfl⟩⟩
        exact Nat.le_trans hread.mark_le hchange.frame.1.length_le
      · simp at hstep
    | run env => exact ⟨hread.run hstep, hwithin.run hread hstep⟩

/--
**As long as a sweep has no savings to send, no iteration sends more than the rate allows since
the one before it**: in every run, at every moment of it.

`current` is when the iteration read the clock, and `previous` when the one before it did.
-/
theorem iteration_within_limit (c : SweepConfig) {s : SweepState} {p : Pace}
    (h : (pacedSweep c).Reachable (s, p)) (hsteady : p.steady = true) :
    (p.sent s : Int) ≤ sendsPerMs * (p.current - p.previous + 1) :=
  (pacedSweep_paced h).within.sent_le hsteady

/-- Eight hosts, and room for all of them in flight. -/
def eightHosts : SweepConfig where
  ips := (List.range 8).map fun i => (10, 0, 0, UInt8.ofNat i)
  timeoutMs := 1000
  maxInFlightArg := 512
  ident := 7
  token := 5
  linux := true
  garbage := fun _ => 0
  count_lt := by decide
  max_lt := by decide

/-- The first iteration sends two echoes, and the next one, a millisecond later, two more. -/
theorem iteration_within_limit_two_iterations :
    ∃ s p, (pacedSweep eightHosts).Reachable (s, p) ∧ p.sent s = 2 ∧ p.current = 1 ∧
      (p.sent s : Int) ≤ sendsPerMs * (p.current - p.previous + 1) := by
  let go : SweepLabel := .run {}
  let sendTwo : List SweepLabel := [go, go, go, go, go]
  let labels : List SweepLabel :=
    go :: sendTwo ++ [go, go, .run { polled := .timedOut }, .tick 1] ++ sendTwo
  have hend : ((pacedSweep eightHosts).exec (SweepState.init eightHosts 0, {}) labels).map
      (fun e => (e.2.sent e.1, e.2.current, e.2.steady)) = some (2, 1, true) := by decide +kernel
  obtain ⟨⟨s, p⟩, hexec, hlast⟩ := Option.map_eq_some_iff.mp hend
  obtain ⟨hsent, hlast⟩ := Prod.mk.inj hlast
  obtain ⟨hcurrent, hsteady⟩ := Prod.mk.inj hlast
  have hrun : (pacedSweep eightHosts).Reachable (s, p) := ⟨_, labels, ⟨⟨0, rfl⟩, rfl⟩, hexec⟩
  exact ⟨s, p, hrun, hsent, hcurrent, iteration_within_limit eightHosts hrun hsteady⟩

/-- Every socket is full for three milliseconds. Then there is room, and one iteration sends
eight echoes, a millisecond after the one before it. -/
theorem full_sockets_save_up_a_burst :
    ∃ s p, (pacedSweep eightHosts).Reachable (s, p) ∧ p.previous = 2 ∧ p.current = 3 ∧
      p.sent s = 8 ∧ ¬(p.sent s : Int) ≤ sendsPerMs * (p.current - p.previous + 1) := by
  let go : SweepLabel := .run {}
  let full : List SweepLabel :=
    [go, go, go, .run { sends := fun _ => .busy }, go, .run { polled := .timedOut }, .tick 1]
  let labels : List SweepLabel :=
    go :: full ++ full ++ full ++ [go, go, go] ++ List.replicate 8 go
  have hend : ((pacedSweep eightHosts).exec (SweepState.init eightHosts 0, {}) labels).map
      (fun e => (e.2.previous, e.2.current, e.2.sent e.1)) = some (2, 3, 8) := by decide +kernel
  obtain ⟨⟨s, p⟩, hexec, hlast⟩ := Option.map_eq_some_iff.mp hend
  obtain ⟨hprevious, hlast⟩ := Prod.mk.inj hlast
  obtain ⟨hcurrent, hsent⟩ := Prod.mk.inj hlast
  have hrun : (pacedSweep eightHosts).Reachable (s, p) := ⟨_, labels, ⟨⟨0, rfl⟩, rfl⟩, hexec⟩
  simp only at hprevious hcurrent hsent
  refine ⟨s, p, hrun, hprevious, hcurrent, hsent, ?_⟩
  rw [hprevious, hcurrent, hsent]
  decide

/-! ## Savings are sent -/

theorem sendRound_ok {nsocks first : Nat} (h : 0 < nsocks) :
    SweepState.sendRound (fun _ => .ok) nsocks first nsocks = .ok := by
  obtain ⟨n, rfl⟩ := Nat.exists_eq_succ_of_ne_zero (Nat.ne_of_gt h)
  rfl

/-- A socket with room takes the next echo. -/
theorem send_ok {s : SweepState} (hsending : s.sending c = true) (hsocks : 0 < s.nsocks) :
    s.send c {} = { s with
      toCore := { (s.toCore.note [.echo s.next .ok]).setHost s.next .inFlight with
        inFlight := sizeInc s.inFlight
        next := s.next + 1 }
      sentAt := Function.update s.sentAt s.next s.now
      busySince := -1
      budget := s.budget - 1 } := by
  unfold SweepState.send
  rw [if_pos (of_decide_eq_true hsending)]
  simp only [sendRound_ok hsocks, reduceCtorEq, false_and, if_false, if_true]
  rfl

/-- Sockets with room take as many echoes as the sweep has to send. -/
theorem sends_all {s : SweepState} {p : Pace} (h : (pacedSweep c).Reachable (s, p)) (n : Nat)
    (hpc : s.pc = .send) (hgo : s.stopped = false) (hsocks : 0 < s.nsocks)
    (hbudget : n ≤ s.budget) (hhosts : s.next + n ≤ c.count)
    (hroom : s.inFlight + n ≤ c.maxInFlight) :
    ∃ s', (pacedSweep c).Reachable (s', p) ∧ p.sent s' = p.sent s + n := by
  induction n generalizing s with
  | zero => exact ⟨s, h, rfl⟩
  | succ n ih =>
    have hsending : s.sending c = true := decide_eq_true ⟨hgo, by omega, by omega, by omega⟩
    have hinc := sizeInc_eq (n := s.inFlight)
      (Nat.lt_of_le_of_lt (by omega) c.maxInFlight_lt)
    have hsent : p.sent (s.send c {}) = p.sent s + 1 := by
      rw [send_ok hsending hsocks]
      exact Pace.sent_append (l := [(s.clock, .echo s.next .ok)])
        (pacedSweep_paced h).readings.mark_le rfl
    have hstep : (pacedSweep c).step (s, p) (.run {}) = some (s.send c {}, p) := by
      show ((s.run c {}).map fun s' => (s', p.see c s (.run {}))) = _
      simp only [SweepState.run, Pace.see, hpc, Option.map_some]
    have hnext := h.step hstep
    rw [send_ok hsending hsocks] at hnext hsent
    obtain ⟨s', hreach, hall⟩ := ih hnext hpc hgo hsocks (show n ≤ s.budget - 1 by omega)
      (show s.next + 1 + n ≤ c.count by omega)
      (show sizeInc s.inFlight + n ≤ c.maxInFlight by rw [hinc]; omega)
    refine ⟨s', hreach, ?_⟩
    rw [hall, hsent]
    omega

/-- In the first billion years of a sweep, the budget does not wrap around. -/
theorem sendBudget_eq {elapsedMs : Int} (h : 0 ≤ elapsedMs) (hlt : elapsedMs < 2 ^ 62)
    (sent : Nat) :
    (sendBudget elapsedMs sent : Int) = max 0 (sendsPerMs * (elapsedMs + 1) - sent) := by
  have hcast : ((elapsedMs + 1) % 2 ^ 64).toNat = (elapsedMs + 1).toNat := by omega
  have hwrap : (elapsedMs + 1).toNat * sendsPerMs % 2 ^ 64 = (elapsedMs + 1).toNat * sendsPerMs :=
    Nat.mod_eq_of_lt (by unfold sendsPerMs; omega)
  unfold sendBudget
  simp only [hcast, hwrap]
  unfold sendsPerMs
  split <;> omega

/-- **A sweep that has savings, hosts and room for them exceeds its limit** as soon as the sockets
take its echoes. -/
theorem savings_sent_at_once {s : SweepState} {p : Pace} (h : (pacedSweep c).Reachable (s, p))
    (hpc : s.pc = .stopCheck) (hsavings : s.noSavings c p {} = false)
    (hclock : s.now - s.started < 2 ^ 62) :
    ∃ s' p', (pacedSweep c).Reachable (s', p') ∧ p'.current = p.current ∧
      p'.previous = p.previous ∧ p'.limit < p'.sent s' := by
  have hread : Readings s p := (pacedSweep_paced h).readings
  have hreading : s.pc.reading = true := by rw [hpc]; rfl
  obtain ⟨-, -, hsocks⟩ := hread.looping (by rw [hpc]; rfl)
  obtain ⟨hnow, hstarted, hle⟩ := hread.reading hreading
  have hlimit := hread.limit_nonneg hreading
  obtain ⟨hnext, hinFlight, hbudget⟩ := stopCheck_keeps {} s
  simp only [SweepState.noSavings, Bool.false_eq_true, false_or, decide_eq_false_iff_not, not_or,
    Int.not_le] at hsavings
  obtain ⟨hgo, hsaved, hhosts, hroom⟩ := hsavings
  have hrun : s.run c {} = some (s.stopCheck {}) := by simp only [SweepState.run, hpc]
  have hmoves := run_moves hrun
  have hstep : (pacedSweep c).step (s, p) (.run {}) =
      some (s.stopCheck {}, p.see c s (.run {})) := by
    show ((s.run c {}).map fun s' => (s', p.see c s (.run {}))) = _
    rw [hrun, Option.map_some]
  have hsee : p.see c s (.run {}) = { p with steady := (p.see c s (.run {})).steady } := by
    simp only [Pace.see, hpc]
  have hreach := h.step hstep
  rw [hsee] at hreach
  -- one echo more than the limit allows
  obtain ⟨s', hreach', hall⟩ := sends_all hreach (p.limit.toNat + 1) rfl
    (by rw [stopCheck_stopped]; simpa using hgo)
    (by rw [(hmoves.fixed (by simp [hpc])).2]; exact hsocks)
    (by
      have hexact := sendBudget_eq (show 0 ≤ s.now - s.started by omega) hclock s.next
      unfold Pace.limit sendsPerMs at *
      omega)
    (by omega) (by omega)
  refine ⟨s', _, hreach', rfl, rfl, ?_⟩
  show p.limit < _
  omega

end NetScanner.Icmp
