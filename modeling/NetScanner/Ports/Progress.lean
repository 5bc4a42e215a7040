import NetScanner.Ports.Whole

/-!
# Progress of a port scan adds up

A scan counts half ports: a port settled by its first try is two, and one that is deferred is one
half at its first try and one at its second. `Counted` is the balance behind it: the halves
counted, and those the ports left, deferred and out will count for, are two for each port of the
range. Every step of a scan keeps it.
-/

namespace NetScanner.Ports

open Infra Connects Progress

/-- How many half ports a verdict of a pass counts for. -/
def ScanPass.halves : ScanPass → Nat
  | .first => 2
  | .retry => 1
  | .third => 0

namespace PortScan

/-! ## Counting half ports -/

/-- The half ports one verdict counts for: a port that gets a second try keeps one for it. -/
def halves (s : PortScan) (p : PortProbe) (outcome : Outcome) (elapsedUs : Nat) : Nat :=
  if s.pass ≠ .third ∧ outcome = .filtered ∧ s.earnsRetry p elapsedUs = true then 1
  else s.pass.halves

/-- The count of whole ports goes with the count of halves. -/
structure Counts (s : PortScan) (halves : Nat) (s' : PortScan) : Prop where
  halfUnits : s'.halfUnits = s.halfUnits + halves
  done : s'.tracker.done = s.tracker.done + ((s.halfUnits + halves) / 2 - s.halfUnits / 2)

theorem advance_counts (s : PortScan) : s.advance.tracker.done = s.tracker.done + 1 := by
  unfold advance
  simp only []
  split
  · obtain ⟨n, hclaim⟩ := claimAndPrint_frame s.tracker.advance.2
    rw [hclaim]
    rfl
  · rfl

theorem iterate_advance_counts (n : Nat) (s : PortScan) :
    (advance^[n] s).tracker.done = s.tracker.done + n := by
  induction n generalizing s with
  | zero => rfl
  | succ n ih =>
    rw [Function.iterate_succ_apply, ih, advance_counts]
    omega

theorem advanceHalves_counts (s : PortScan) (n : Nat) : Counts s n (s.advanceHalves n) := by
  obtain ⟨tracker, events, hframe⟩ := iterate_advance_frame
    ((s.halfUnits + n) / 2 - s.halfUnits / 2) { s with halfUnits := s.halfUnits + n }
  have hdone := iterate_advance_counts
    ((s.halfUnits + n) / 2 - s.halfUnits / 2) { s with halfUnits := s.halfUnits + n }
  have heq : s.advanceHalves n = advance^[(s.halfUnits + n) / 2 - s.halfUnits / 2]
      { s with halfUnits := s.halfUnits + n } := rfl
  constructor
  · rw [heq, hframe]
  · rw [heq, hdone]

/-- What a verdict settles before it counts keeps what it counts for. -/
theorem earnsRetry_settled (s : PortScan) (p : PortProbe) (e : Nat) :
    ((s.learn .filtered e).settleRetry p .filtered).earnsRetry p e = s.earnsRetry p e := by
  have hlearn : s.learn .filtered e = s := by simp [learn]
  rw [hlearn]
  unfold settleRetry
  split <;> rfl

/-- What a verdict has shown and found before it counts. -/
structure Settles (s : PortScan) (p : PortProbe) (o : Outcome) (r : PortScan) : Prop where
  run : r.run = s.run
  halfUnits : r.halfUnits = s.halfUnits
  tracker : r.tracker = if o = .open then s.tracker.addFound else s.tracker
  events : r.events =
    s.events ++ if o = .open ∧ s.run.output.stream = true then [.port p.target.port] else []

theorem settles_learned (s : PortScan) (p : PortProbe) {o : Outcome} (e : Nat) (h : o ≠ .open) :
    Settles s p o ((s.learn o e).settleRetry p o) := by
  unfold settleRetry learn
  split <;> split <;> (try split) <;> exact ⟨rfl, rfl, by simp [h], by simp [h]⟩

theorem settles_recorded (s : PortScan) (p : PortProbe) (e : Nat) :
    Settles s p .open (((s.learn .open e).settleRetry p .open).recordOpen p.target.port) := by
  unfold settleRetry learn recordOpen
  cases hstream : s.run.output.stream <;> cases hmem : s.run.memory s.appends <;>
    by_cases hpass : s.pass = .retry <;>
    simp only [hstream, hmem, hpass, if_true, if_false, ne_eq, reduceCtorEq, not_false_eq_true,
      Bool.false_eq_true] <;>
    exact ⟨rfl, rfl, by simp, by simp [hstream]⟩

theorem advanceHalves_zero (s : PortScan) : s.advanceHalves 0 = s := by
  unfold advanceHalves
  simp only [Nat.add_zero, Nat.sub_self]
  rfl

/-- **A verdict is settled, and then it counts.** -/
theorem done_settles (s : PortScan) (p : PortProbe) (o : Outcome) (e : Nat) :
    ∃ r, Settles s p o r ∧ s.done p o e = r.advanceHalves (s.halves p o e) := by
  have hpass : ((s.learn o e).settleRetry p o).pass = s.pass :=
    ((s.learn o e).settleRetry_pass p o).trans (s.learn_pass o e)
  by_cases hthird : s.pass = .third
  · have hnone : s.halves p o e = 0 := by
      unfold halves
      rw [if_neg (by simp [hthird]), hthird]
      rfl
    simp only [hnone, advanceHalves_zero, exists_eq_right']
    unfold done
    simp only []
    rw [if_pos (hpass.trans hthird)]
    cases o with
    | «open» => exact s.settles_recorded p e
    | refused => exact s.settles_learned p e (by simp)
    | filtered => exact s.settles_learned p e (by simp)
  · have hhalves : (if ((s.learn o e).settleRetry p o).pass = .first then 2 else 1) =
        s.pass.halves := by
      rw [hpass]
      cases hp : s.pass with
      | first => rfl
      | retry => rfl
      | third => exact absurd hp hthird
    unfold done
    simp only []
    rw [if_neg (fun h => hthird (hpass.symm.trans h)), hhalves]
    cases o with
    | «open» =>
      have hk : s.halves p .open e = s.pass.halves := by simp [halves]
      rw [hk]
      exact ⟨_, s.settles_recorded p e, rfl⟩
    | refused =>
      have hk : s.halves p .refused e = s.pass.halves := by simp [halves]
      rw [hk]
      exact ⟨_, s.settles_learned p e (by simp), rfl⟩
    | filtered =>
      have hsettled := s.settles_learned p e (o := .filtered) (by simp)
      simp only [earnsRetry_settled]
      cases hearn : s.earnsRetry p e with
      | true =>
        have hk : s.halves p .filtered e = 1 := by simp [halves, hthird, hearn]
        rw [hk]
        exact ⟨{ (s.learn .filtered e).settleRetry p .filtered with
          retries := ((s.learn .filtered e).settleRetry p .filtered).retries ++ [p.deferral] },
          ⟨hsettled.run, hsettled.halfUnits, hsettled.tracker, hsettled.events⟩, rfl⟩
      | false =>
        have hk : s.halves p .filtered e = s.pass.halves := by simp [halves, hearn]
        rw [hk]
        exact ⟨_, hsettled, rfl⟩

/-- **What a verdict counts for.** -/
theorem done_counts (s : PortScan) (p : PortProbe) (o : Outcome) (e : Nat) :
    Counts s (s.halves p o e) (s.done p o e) := by
  obtain ⟨r, hr, hdone⟩ := s.done_settles p o e
  obtain ⟨hhalf, hcount⟩ := r.advanceHalves_counts (s.halves p o e)
  have htracker : r.tracker.done = s.tracker.done := by
    rw [hr.tracker]
    split <;> rfl
  rw [hdone]
  exact ⟨by rw [hhalf, hr.halfUnits], by rw [hcount, hr.halfUnits, htracker]⟩

end PortScan

/-! ## The balance -/

/-- The balance of a scan of `n` ports, and what each pass leaves behind. -/
structure Counted (t : PortTable) (run : Run) (n : Nat) (m : Scanning) : Prop where
  run_eq : m.scan.run = run
  done : m.scan.tracker.done = m.scan.halfUnits / 2
  /-- A port not handed out counts for two halves, a deferred one for one, and a probe that is out
  for what its pass counts. -/
  balance : m.scan.halfUnits + 2 * (m.scan.firstLeft t).length +
    (m.scan.retries.length - m.scan.nextRetry) + m.scan.pass.halves * m.out.card = 2 * n
  next_le : m.scan.nextRetry ≤ m.scan.retries.length
  plain : m.scan.pass = .retry → ∀ p ∈ m.out, p.deferrable = false ∧ p.blind = false
  first_through : (∀ k, run.cancel k = false) → m.scan.pass ≠ .first ∨ m.dry = true →
    m.scan.firstLeft t = []
  retry_through : (∀ k, run.cancel k = false) →
    m.scan.pass = .third ∨ m.scan.pass = .retry ∧ m.dry = true →
    m.scan.retries.length ≤ m.scan.nextRetry
  ended : m.ended = true → m.out = 0 ∧ m.dry = true ∧ m.scan.pass ≠ .first

namespace Counted

variable {t : PortTable} {run : Run} {n : Nat} {m m' : Scanning}

theorem start (ip : Net.Ip) (lo hi : Nat) (timeoutMs : Option Nat) (tracker : Tracker) :
    Counted t run (hi + 1 - lo) { scan := PortScan.init run ip lo hi timeoutMs tracker } where
  run_eq := rfl
  done := by simp [PortScan.init, Tracker.startPhase]
  balance := by
    have hlen := (PortScan.firstLeft_perm_range t (s := PortScan.init run ip lo hi timeoutMs
      tracker) rfl rfl).length_eq
    rw [List.length_range'] at hlen
    simp only [hlen]
    simp [PortScan.init, PortScan.total, ScanPass.halves]
  next_le := Nat.zero_le _
  plain h := by simp [PortScan.init] at h
  first_through _ h := by simp [PortScan.init] at h
  retry_through _ h := by simp [PortScan.init] at h
  ended h := by simp at h

theorem next_first (h : Counted t run n m) (hpass : m.scan.pass = .first)
    (hs : m.step t .next = some m') : Counted t run n m' := by
  obtain ⟨hended, hcases⟩ := Scanning.step_next hs
  have hbalance := h.balance
  rcases hcases with ⟨s', hnext, rfl⟩ | ⟨s', probe, hnext, rfl⟩
  · obtain ⟨nr, np, hs', hleft, hend⟩ := PortScan.next_first_none hpass hnext
    rw [← hleft] at hbalance
    refine ⟨?_, ?_, ?_, ?_, ?_, ?_, ?_, ?_⟩
    · rw [hs']
      exact h.run_eq
    · rw [hs']
      exact h.done
    · rw [hs'] at hbalance ⊢
      exact hbalance
    · rw [hs']
      exact h.next_le
    · rw [hs']
      exact h.plain
    · intro hstop _
      exact hleft.trans (hend (by rw [h.run_eq]; exact hstop _))
    · rw [hs']
      intro _ hr
      simp [hpass] at hr
    · intro ho
      simp [hended] at ho
  · obtain ⟨nr, np, port, hs', hleft, _⟩ := PortScan.next_first_some hpass hnext
    rw [hleft, List.length_cons, hpass] at hbalance
    simp only [ScanPass.halves] at hbalance
    refine ⟨?_, ?_, ?_, ?_, ?_, ?_, ?_, ?_⟩
    · rw [hs']
      exact h.run_eq
    · rw [hs']
      exact h.done
    · have hkept : s'.halfUnits = m.scan.halfUnits ∧ s'.retries = m.scan.retries ∧
          s'.nextRetry = m.scan.nextRetry ∧ s'.pass = .first := by
        rw [hs']
        exact ⟨rfl, rfl, rfl, hpass⟩
      simp only [hkept, ScanPass.halves, Multiset.card_cons]
      omega
    · rw [hs']
      exact h.next_le
    · rw [hs']
      intro hr
      simp [hpass] at hr
    · rw [hs']
      intro hstop hr
      have hnil := h.first_through hstop (by simpa [hpass] using hr)
      rw [hnil] at hleft
      simp at hleft
    · rw [hs']
      intro _ hr
      simp [hpass] at hr
    · intro ho
      simp [hended] at ho

theorem next_retry (h : Counted t run n m) (hpass : m.scan.pass = .retry)
    (hs : m.step t .next = some m') : Counted t run n m' := by
  obtain ⟨hended, hcases⟩ := Scanning.step_next hs
  have hbalance := h.balance
  rcases hcases with ⟨s', hnext, rfl⟩ | ⟨s', probe, hnext, rfl⟩
  · obtain ⟨rfl, hend⟩ := PortScan.next_retry_none hpass hnext
    refine ⟨h.run_eq, h.done, hbalance, h.next_le, h.plain, ?_, ?_, ?_⟩
    · intro hstop _
      exact h.first_through hstop (Or.inl (by simp [hpass]))
    · intro hstop _
      exact hend (by rw [h.run_eq]; exact hstop _)
    · intro ho
      simp [hended] at ho
  · obtain ⟨deferred, hget, rfl, rfl⟩ := PortScan.next_retry_some hpass hnext
    obtain ⟨hlt, _⟩ := List.getElem?_eq_some_iff.mp hget
    rw [hpass] at hbalance
    simp only [ScanPass.halves] at hbalance
    refine ⟨h.run_eq, h.done, ?_, hlt, ?_, ?_, ?_, ?_⟩
    · simp only [hpass, ScanPass.halves, Multiset.card_cons]
      show m.scan.halfUnits + 2 * (m.scan.firstLeft t).length + _ + _ = _
      omega
    · intro _ p hp
      rcases Multiset.mem_cons.mp hp with rfl | hp
      · exact ⟨rfl, rfl⟩
      · exact h.plain hpass p hp
    · intro hstop _
      exact h.first_through hstop (Or.inl (by simp [hpass]))
    · intro hstop hr
      have hle := h.retry_through hstop hr
      omega
    · intro ho
      simp [hended] at ho

theorem next_third (h : Counted t run n m) (hpass : m.scan.pass = .third)
    (hs : m.step t .next = some m') : Counted t run n m' := by
  obtain ⟨hended, hcases⟩ := Scanning.step_next hs
  have hbalance := h.balance
  rw [hpass] at hbalance
  have hfirst := fun hstop => h.first_through hstop (Or.inl (by simp [hpass]))
  have hretry := fun hstop => h.retry_through hstop (Or.inl hpass)
  rcases hcases with ⟨s', hnext, rfl⟩ | ⟨s', probe, hnext, rfl⟩
  · obtain ⟨rfl, _⟩ := PortScan.next_third_none hpass hnext
    exact ⟨h.run_eq, h.done, h.balance, h.next_le, h.plain, fun hstop _ => hfirst hstop,
      fun hstop _ => hretry hstop, fun ho => by simp [hended] at ho⟩
  · obtain ⟨deferred, _, _, rfl, _⟩ := PortScan.next_third_some hpass hnext
    refine ⟨h.run_eq, h.done, ?_, h.next_le, ?_, fun hstop _ => hfirst hstop,
      fun hstop _ => hretry hstop, fun ho => by simp [hended] at ho⟩
    · simp only [hpass, ScanPass.halves, Nat.zero_mul] at hbalance ⊢
      exact hbalance
    · intro hr
      simp [hpass] at hr

theorem counted_done (h : Counted t run n m) (p : PortProbe) (o : Outcome) (e : Nat) :
    (m.scan.done p o e).tracker.done = (m.scan.done p o e).halfUnits / 2 := by
  have hcounts := m.scan.done_counts p o e
  have hdone := h.done
  rw [hcounts.done, hcounts.halfUnits, hdone]
  omega

theorem report_first (h : Counted t run n m) (hpass : m.scan.pass = .first) {p : PortProbe}
    {o : Outcome} {e : Nat} (hs : m.step t (.report p o e) = some m') : Counted t run n m' := by
  obtain ⟨out, hout, rfl⟩ := Scanning.step_report hs
  obtain ⟨tr, ev, hu, hdone⟩ := PortScan.done_first hpass p o e
  obtain ⟨est, fast, hlearn⟩ := m.scan.learn_frame o e
  rw [hlearn] at hdone
  have hhalves := (m.scan.done_counts p o e).halfUnits
  have hbalance := h.balance
  have hle := h.next_le
  rw [hout, hpass, Multiset.card_cons] at hbalance
  -- a port that is deferred moves one of its halves to the retries
  have hdeferred : m.scan.halves p o e + (m.scan.deferred p o e).length =
      m.scan.retries.length + 2 := by
    unfold PortScan.halves PortScan.deferred
    rw [hpass]
    by_cases hearn : o = .filtered ∧ m.scan.earnsRetry p e = true
    · rw [if_pos ⟨by simp, hearn⟩, if_pos hearn, List.length_append, List.length_singleton]
      omega
    · rw [if_neg (fun hc => hearn hc.2), if_neg hearn]
      simp only [ScanPass.halves]
      omega
  have hgrows : m.scan.retries.length ≤ (m.scan.deferred p o e).length := by
    unfold PortScan.deferred
    split <;> simp
  have hkept : (m.scan.done p o e).retries = m.scan.deferred p o e ∧
      (m.scan.done p o e).nextRetry = m.scan.nextRetry ∧
      (m.scan.done p o e).firstLeft t = m.scan.firstLeft t ∧
      (m.scan.done p o e).pass = .first := by
    rw [hdone]
    exact ⟨rfl, rfl, rfl, hpass⟩
  refine ⟨?_, h.counted_done p o e, ?_, ?_, ?_, ?_, ?_, ?_⟩
  · rw [hdone]
    exact h.run_eq
  · simp only [hkept, hhalves, ScanPass.halves] at hbalance ⊢
    omega
  · simp only [hkept]
    omega
  · intro hr
    simp [hkept] at hr
  · intro hstop hr
    simp only [hkept] at hr ⊢
    exact h.first_through hstop (by simpa [hpass] using hr)
  · intro _ hr
    simp [hkept] at hr
  · intro ho
    have hnone := (h.ended ho).1
    rw [hout] at hnone
    simp at hnone

theorem report_retry (h : Counted t run n m) (hpass : m.scan.pass = .retry) {p : PortProbe}
    {o : Outcome} {e : Nat} (hs : m.step t (.report p o e) = some m') : Counted t run n m' := by
  obtain ⟨out, hout, rfl⟩ := Scanning.step_report hs
  have hplain := h.plain hpass
  rw [hout] at hplain
  have hp := hplain p (Multiset.mem_cons_self p out)
  obtain ⟨tr, ev, hu, hdone⟩ := PortScan.done_retry hpass hp o e
  obtain ⟨est, fast, hlearn⟩ := m.scan.learn_frame o e
  rw [hlearn] at hdone
  have hhalves : m.scan.halves p o e = 1 := by
    unfold PortScan.halves
    rw [hpass, if_neg (by simp [PortScan.earnsRetry, hp])]
    rfl
  have hcounts := (m.scan.done_counts p o e).halfUnits
  rw [hhalves] at hcounts
  have hbalance := h.balance
  rw [hout, hpass, Multiset.card_cons] at hbalance
  have hlength : (m.scan.done p o e).retries.length = m.scan.retries.length := by
    rw [hdone]
    simp only []
    split
    · exact List.length_set
    · rfl
  have hkept : (m.scan.done p o e).nextRetry = m.scan.nextRetry ∧
      (m.scan.done p o e).firstLeft t = m.scan.firstLeft t ∧
      (m.scan.done p o e).pass = .retry := by
    rw [hdone]
    exact ⟨rfl, rfl, hpass⟩
  refine ⟨?_, h.counted_done p o e, ?_, ?_, ?_, ?_, ?_, ?_⟩
  · rw [hdone]
    exact h.run_eq
  · simp only [hkept, hlength, hcounts, ScanPass.halves] at hbalance ⊢
    omega
  · simp only [hkept, hlength]
    exact h.next_le
  · intro _ q hq
    exact hplain q (Multiset.mem_cons_of_mem hq)
  · intro hstop _
    simp only [hkept]
    exact h.first_through hstop (Or.inl (by simp [hpass]))
  · intro hstop hr
    simp only [hkept, hlength] at hr ⊢
    exact h.retry_through hstop (by simpa [hpass] using hr)
  · intro ho
    have hnone := (h.ended ho).1
    rw [hout] at hnone
    simp at hnone

theorem report_third (h : Counted t run n m) (hpass : m.scan.pass = .third) {p : PortProbe}
    {o : Outcome} {e : Nat} (hs : m.step t (.report p o e) = some m') : Counted t run n m' := by
  obtain ⟨out, hout, rfl⟩ := Scanning.step_report hs
  obtain ⟨tr, ev, hdone⟩ := PortScan.done_third hpass p o e
  obtain ⟨est, fast, hlearn⟩ := m.scan.learn_frame o e
  rw [hlearn] at hdone
  have hbalance := h.balance
  rw [hpass] at hbalance
  have hkept : (m.scan.done p o e).halfUnits = m.scan.halfUnits ∧
      (m.scan.done p o e).retries = m.scan.retries ∧
      (m.scan.done p o e).nextRetry = m.scan.nextRetry ∧
      (m.scan.done p o e).firstLeft t = m.scan.firstLeft t ∧
      (m.scan.done p o e).pass = .third := by
    rw [hdone]
    exact ⟨rfl, rfl, rfl, rfl, hpass⟩
  refine ⟨?_, h.counted_done p o e, ?_, ?_, ?_, ?_, ?_, ?_⟩
  · rw [hdone]
    exact h.run_eq
  · simp only [hkept, ScanPass.halves, Nat.zero_mul] at hbalance ⊢
    exact hbalance
  · simp only [hkept]
    exact h.next_le
  · intro hr
    simp [hkept] at hr
  · intro hstop _
    simp only [hkept]
    exact h.first_through hstop (Or.inl (by simp [hpass]))
  · intro hstop _
    simp only [hkept]
    exact h.retry_through hstop (Or.inl hpass)
  · intro ho
    have hnone := (h.ended ho).1
    rw [hout] at hnone
    simp at hnone

theorem turn (h : Counted t run n m) (hs : m.step t .turn = some m') : Counted t run n m' := by
  obtain ⟨⟨hended, hout, hdry⟩, hcases⟩ := Scanning.step_turn hs
  have hbalance := h.balance
  rw [hout, Multiset.card_zero, Nat.mul_zero] at hbalance
  have hfirst := fun hstop => h.first_through hstop (Or.inr hdry)
  rcases hcases with ⟨hpass, rfl⟩ | ⟨hpass, rfl⟩ | ⟨hpass, rfl⟩ | ⟨hpass, rfl⟩
  · exact ⟨h.run_eq, h.done, hbalance, h.next_le, fun _ p hp => by simp at hp,
      fun hstop _ => hfirst hstop, fun _ hr => by simp [PortScan.second] at hr,
      fun ho => by simp at ho⟩
  · rw [PortScan.third, m.scan.needsThirdPass_snd]
    exact ⟨h.run_eq, h.done, hbalance, h.next_le, fun _ p hp => by simp at hp,
      fun hstop _ => hfirst hstop, fun hstop _ => h.retry_through hstop (Or.inr ⟨hpass, hdry⟩),
      fun ho => by simp at ho⟩
  · rw [m.scan.needsThirdPass_snd]
    exact ⟨h.run_eq, h.done, h.balance, h.next_le, h.plain, h.first_through, h.retry_through,
      fun _ => ⟨hout, hdry, by simp [hpass]⟩⟩
  · exact ⟨h.run_eq, h.done, h.balance, h.next_le, h.plain, h.first_through, h.retry_through,
      fun _ => ⟨hout, hdry, by simp [hpass]⟩⟩

/-- **Every step of a scan keeps the balance.** -/
theorem step {l : ScanLabel} (h : Counted t run n m) (hs : m.step t l = some m') :
    Counted t run n m' := by
  cases l with
  | next =>
    cases hpass : m.scan.pass with
    | first => exact h.next_first hpass hs
    | retry => exact h.next_retry hpass hs
    | third => exact h.next_third hpass hs
  | report p o e =>
    cases hpass : m.scan.pass with
    | first => exact h.report_first hpass hs
    | retry => exact h.report_retry hpass hs
    | third => exact h.report_third hpass hs
  | turn => exact h.turn hs

end Counted

theorem Scanning.counted {t : PortTable} {run : Run} {ip : Net.Ip} {lo hi : Nat}
    {timeoutMs : Option Nat} {tracker : Tracker} {m : Scanning}
    (h : (scanning t (PortScan.init run ip lo hi timeoutMs tracker)).Reachable m) :
    Counted t run (hi + 1 - lo) m := by
  refine h.invariant (I := Counted t run (hi + 1 - lo)) ?_ ?_
  · rintro m rfl
    exact Counted.start ip lo hi timeoutMs tracker
  · intro m l m' _ hm hs
    exact hm.step hs

/-- **Past its second pass a scan that nobody stopped has counted every port.** -/
theorem Counted.full {t : PortTable} {run : Run} {n : Nat} {m : Scanning} (h : Counted t run n m)
    (hstop : ∀ k, run.cancel k = false)
    (hpast : m.scan.pass = .third ∨ m.ended = true ∨
      m.scan.pass = .retry ∧ m.dry = true ∧ m.out = 0) :
    m.scan.tracker.done = n := by
  have hbalance := h.balance
  have hdone := h.done
  have hended := h.ended
  -- nothing that counts is out, deferred or left
  have hnone : m.scan.pass.halves * m.out.card = 0 := by
    rcases hpast with hthird | ho | ⟨_, _, hout⟩
    · rw [hthird, ScanPass.halves, Nat.zero_mul]
    · rw [(hended ho).1, Multiset.card_zero, Nat.mul_zero]
    · rw [hout, Multiset.card_zero, Nat.mul_zero]
  have hpass : m.scan.pass = .third ∨ m.scan.pass = .retry ∧ m.dry = true := by
    rcases hpast with hthird | ho | ⟨hretry, hdry, _⟩
    · exact Or.inl hthird
    · obtain ⟨_, hdry, hne⟩ := hended ho
      cases hp : m.scan.pass with
      | first => exact absurd hp hne
      | retry => exact Or.inr ⟨rfl, hdry⟩
      | third => exact Or.inl rfl
    · exact Or.inr ⟨hretry, hdry⟩
  have hlater : m.scan.pass ≠ .first := by
    rcases hpass with hp | ⟨hp, _⟩ <;> simp [hp]
  have hfirst := h.first_through hstop (Or.inl hlater)
  have hretry := h.retry_through hstop hpass
  rw [hfirst, hnone, List.length_nil] at hbalance
  omega

/-! ## From one moment to a later one -/

section Later

variable {t : PortTable} {s₀ : PortScan} {m m' : Scanning}

theorem Scanning.step_counts {l : ScanLabel} (hs : m.step t l = some m') :
    m.scan.halfUnits ≤ m'.scan.halfUnits ∧ m.scan.tracker.done ≤ m'.scan.tracker.done ∧
      (m.scan.pass = .third → m'.scan.pass = .third ∧
        m'.scan.halfUnits = m.scan.halfUnits ∧ m'.scan.tracker.done = m.scan.tracker.done) := by
  cases l with
  | next =>
    obtain ⟨_, hcases⟩ := Scanning.step_next hs
    rcases hcases with ⟨s', hnext, rfl⟩ | ⟨s', probe, hnext, rfl⟩
    · obtain ⟨hpass, _, hhalf, htracker, _⟩ := PortScan.next_keeps hnext
      exact ⟨hhalf.ge, by rw [htracker], fun h => ⟨hpass.trans h, hhalf, by rw [htracker]⟩⟩
    · obtain ⟨hpass, _, hhalf, htracker, _⟩ := PortScan.next_keeps hnext
      exact ⟨hhalf.ge, by rw [htracker], fun h => ⟨hpass.trans h, hhalf, by rw [htracker]⟩⟩
  | report p o e =>
    obtain ⟨out, _, rfl⟩ := Scanning.step_report hs
    obtain ⟨hhalf, hdone⟩ := m.scan.done_counts p o e
    simp only [hhalf, hdone, PortScan.done_pass]
    refine ⟨Nat.le_add_right _ _, Nat.le_add_right _ _, fun hthird => ⟨hthird, ?_⟩⟩
    have hnone : m.scan.halves p o e = 0 := by
      unfold PortScan.halves
      rw [if_neg (by simp [hthird]), hthird]
      rfl
    rw [hnone]
    exact ⟨rfl, by simp⟩
  | turn =>
    obtain ⟨_, hcases⟩ := Scanning.step_turn hs
    rcases hcases with ⟨hpass, rfl⟩ | ⟨hpass, rfl⟩ | ⟨hpass, rfl⟩ | ⟨hpass, rfl⟩
    · exact ⟨le_refl _, le_refl _, fun h => by simp [hpass] at h⟩
    · rw [PortScan.third, m.scan.needsThirdPass_snd]
      exact ⟨le_refl _, le_refl _, fun _ => ⟨rfl, rfl, rfl⟩⟩
    · rw [m.scan.needsThirdPass_snd]
      exact ⟨le_refl _, le_refl _, fun h => by simp [hpass] at h⟩
    · exact ⟨le_refl _, le_refl _, fun h => ⟨h, rfl, rfl⟩⟩

theorem Scanning.exec_counts {labels : List ScanLabel}
    (hrun : (scanning t s₀).exec m labels = some m') :
    m.scan.tracker.done ≤ m'.scan.tracker.done ∧
      (m.scan.pass = .third → m'.scan.pass = .third ∧
        m'.scan.halfUnits = m.scan.halfUnits ∧ m'.scan.tracker.done = m.scan.tracker.done) := by
  refine Lts.exec_induction (P := fun _ m' => m.scan.tracker.done ≤ m'.scan.tracker.done ∧
    (m.scan.pass = .third → m'.scan.pass = .third ∧ m'.scan.halfUnits = m.scan.halfUnits ∧
      m'.scan.tracker.done = m.scan.tracker.done)) ?_ ?_ hrun
  · exact ⟨le_refl _, fun h => ⟨h, rfl, rfl⟩⟩
  · rintro _ l m₁ m₂ _ ⟨hle, hkept⟩ hs
    obtain ⟨_, hle', hkept'⟩ := Scanning.step_counts hs
    refine ⟨hle.trans hle', fun h => ?_⟩
    obtain ⟨hpass, hhalf, hdone⟩ := hkept h
    obtain ⟨hpass', hhalf', hdone'⟩ := hkept' hpass
    exact ⟨hpass', hhalf'.trans hhalf, hdone'.trans hdone⟩

end Later

/-- What the progress of a scan of `n` ports comes to at a moment `m` of it. -/
structure AddsUp (t : PortTable) (s₀ : PortScan) (n : Nat) (m : Scanning) : Prop where
  halved : m.scan.tracker.done = m.scan.halfUnits / 2
  le : m.scan.tracker.done ≤ n
  never_back : ∀ labels m', (scanning t s₀).exec m labels = some m' →
    m.scan.tracker.done ≤ m'.scan.tracker.done
  third : m.scan.pass = .third → ∀ labels m', (scanning t s₀).exec m labels = some m' →
    m'.scan.halfUnits = m.scan.halfUnits ∧ m'.scan.tracker.done = m.scan.tracker.done
  /-- The first two passes of a scan that nobody stops count every port. -/
  full : (∀ k, s₀.run.cancel k = false) →
    m.scan.pass = .third ∨ m.ended = true ∨
      m.scan.pass = .retry ∧ m.dry = true ∧ m.out = 0 →
    m.scan.tracker.done = n

/--
**The progress of a port scan adds up**, for every range, with or without `--timeout`, at every
moment of every order in which `connects.run` can ask for ports and report them.
-/
theorem progress_adds_up {t : PortTable} {run : Run} {ip : Net.Ip} {lo hi : Nat}
    {timeoutMs : Option Nat} {tracker : Tracker} {m : Scanning}
    (h : (scanning t (PortScan.init run ip lo hi timeoutMs tracker)).Reachable m) :
    AddsUp t (PortScan.init run ip lo hi timeoutMs tracker) (hi + 1 - lo) m := by
  have hcounted := Scanning.counted h
  have hbalance := hcounted.balance
  have hdone := hcounted.done
  exact ⟨hdone, by omega, fun _ _ hrun => (Scanning.exec_counts hrun).1,
    fun hthird _ _ hrun => ((Scanning.exec_counts hrun).2 hthird).2, hcounted.full⟩

/-- A scan of two ports: one is open, and the other is silent on both its tries and so counts one
half for each. -/
theorem progress_adds_up_two_ports :
    let t : PortTable :=
      { entries := []
        byRank := []
        ascending := by decide
        port_pos := by decide
        built := by decide }
    let run : Run :=
      { output := { stream := true, json := true }
        cancel := fun _ => false
        memory := fun _ => true }
    let s₀ := PortScan.init run (10, 0, 0, 1) 79 80 none {}
    ∃ m, (scanning t s₀).Reachable m ∧ m.ended = true ∧ m.scan.tracker.done = 2 ∧
      m.scan.retries.length = 1 ∧ AddsUp t s₀ 2 m := by
  intro t run s₀
  let blind (port : Nat) : PortProbe :=
    { target :=
        { ip := (10, 0, 0, 1)
          port := port
          timeoutMs := 500
          cutFloorMs := some 100 }
      deferrable := false
      blind := true }
  let again : PortProbe :=
    { target :=
        { ip := (10, 0, 0, 1)
          port := 79
          timeoutMs := 100 }
      deferrable := false }
  let labels : List ScanLabel := [.next, .next, .report (blind 80) .open 1000, .next,
    .report (blind 79) .filtered 500000, .turn, .next, .next, .report again .filtered 100000, .turn]
  have hrun : ((scanning t s₀).exec { scan := s₀ } labels).map
      (fun m => (m.ended, m.scan.tracker.done, m.scan.retries.length)) = some (true, 2, 1) := by
    decide +kernel
  obtain ⟨m, hm, hend⟩ := Option.map_eq_some_iff.mp hrun
  simp only [Prod.mk.injEq] at hend
  have hreach : (scanning t s₀).Reachable m := ⟨{ scan := s₀ }, labels, rfl, hm⟩
  exact ⟨m, hreach, hend.1, hend.2.1, hend.2.2, progress_adds_up hreach⟩

end NetScanner.Ports
