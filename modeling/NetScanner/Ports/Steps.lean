import NetScanner.Ports.Scan
import Mathlib.Data.List.Lattice

/-!
# What `next` and `done` do to a port scan

`done_first`, `done_retry` and `done_third` say once, for each pass, what a verdict changes;
what only a frontend sees (tracker, events, half ports) is left open there.

`firstLeft` is the list of ports the first pass still has to hand out, in its order, and
`nextFirstPort` takes the head of it.
-/

namespace NetScanner.Ports

open Connects

namespace PortScan

/-! ## What a verdict does -/

/-- `Run.advance` touches only what a frontend sees. -/
theorem advance_frame (s : PortScan) :
    ∃ tracker events, s.advance = { s with tracker := tracker, events := events } := by
  unfold advance
  simp only []
  split
  · exact ⟨_, _, rfl⟩
  · exact ⟨_, s.events, rfl⟩

theorem iterate_advance_frame (n : Nat) (s : PortScan) :
    ∃ tracker events, advance^[n] s = { s with tracker := tracker, events := events } := by
  induction n generalizing s with
  | zero => exact ⟨s.tracker, s.events, rfl⟩
  | succ n ih =>
    obtain ⟨tr, ev, h⟩ := s.advance_frame
    obtain ⟨tr', ev', h'⟩ := ih s.advance
    rw [h] at h'
    exact ⟨tr', ev', by rw [Function.iterate_succ_apply, h, h']⟩

theorem advanceHalves_frame (s : PortScan) (halves : Nat) :
    ∃ tracker events halfUnits, s.advanceHalves halves =
      { s with tracker := tracker, events := events, halfUnits := halfUnits } := by
  obtain ⟨tr, ev, h⟩ := iterate_advance_frame
    ((s.halfUnits + halves) / 2 - s.halfUnits / 2) { s with halfUnits := s.halfUnits + halves }
  exact ⟨tr, ev, s.halfUnits + halves, h⟩

/-- An answer changes only what the scan knows of its host. -/
theorem learn_frame (s : PortScan) (o : Outcome) (e : Nat) :
    ∃ estimator fastest, s.learn o e =
      { s with estimator := estimator, fastestAnswerUs := fastest } := by
  unfold learn
  split
  · exact ⟨_, _, rfl⟩
  · exact ⟨s.estimator, s.fastestAnswerUs, rfl⟩

theorem learn_pass (s : PortScan) (o : Outcome) (e : Nat) : (s.learn o e).pass = s.pass := by
  obtain ⟨estimator, fastest, h⟩ := s.learn_frame o e
  rw [h]

/-- No verdict moves the scan to another pass. -/
theorem settleRetry_pass (s : PortScan) (p : PortProbe) (o : Outcome) :
    (s.settleRetry p o).pass = s.pass := by
  unfold settleRetry
  split
  · split <;> rfl
  · rfl

/-- Only a second try settles one. -/
theorem settleRetry_of_ne {s : PortScan} (h : s.pass ≠ .retry) (p : PortProbe) (o : Outcome) :
    s.settleRetry p o = s := if_neg h

/-- The open ports after a verdict. -/
def opened (s : PortScan) (port : Nat) (outcome : Outcome) : List Nat :=
  if outcome = .open ∧ s.run.memory s.appends = true then s.openPorts ++ [port] else s.openPorts

theorem recordOpen_frame (s : PortScan) (port : Nat) :
    ∃ tracker events, s.recordOpen port = { s with
      tracker := tracker
      events := events
      openPorts := s.opened port .open
      appends := s.appends + 1 } := by
  unfold recordOpen opened
  cases hstream : s.run.output.stream <;> cases hmem : s.run.memory s.appends
  · exact ⟨s.tracker.addFound, s.events, by simp [hmem]⟩
  · exact ⟨s.tracker.addFound, s.events, by simp [hmem]⟩
  · exact ⟨s.tracker.addFound, s.events ++ [.port port], by simp [hmem]⟩
  · exact ⟨s.tracker.addFound, s.events ++ [.port port], by simp [hmem]⟩

/-- The retries after a verdict of the first pass. -/
def deferred (s : PortScan) (p : PortProbe) (outcome : Outcome) (elapsedUs : Nat) :
    List Deferred :=
  if outcome = .filtered ∧ s.earnsRetry p elapsedUs = true then
    s.retries ++ [p.deferral]
  else s.retries

/-- **A verdict of the first pass.** -/
theorem done_first {s : PortScan} (hpass : s.pass = .first) (p : PortProbe) (o : Outcome)
    (e : Nat) :
    ∃ tracker events halfUnits, s.done p o e = { s.learn o e with
      tracker := tracker
      events := events
      halfUnits := halfUnits
      retries := s.deferred p o e
      openPorts := s.opened p.target.port o
      appends := if o = .open then s.appends + 1 else s.appends } := by
  have hlearn : ∀ o, (s.learn o e).pass = .first := fun o => (s.learn_pass o e).trans hpass
  have hsettle : ∀ o, (s.learn o e).settleRetry p o = s.learn o e :=
    fun o => settleRetry_of_ne (by simp [hlearn]) p o
  cases o with
  | «open» =>
    obtain ⟨tr, ev, hrec⟩ := (s.learn .open e).recordOpen_frame p.target.port
    obtain ⟨tr', ev', hu, hadv⟩ :=
      ((s.learn .open e).recordOpen p.target.port).advanceHalves_frame 2
    refine ⟨tr', ev', hu, ?_⟩
    simp only [done, hsettle, hlearn, reduceCtorEq, if_true, if_false]
    rw [hadv, hrec]
    simp [learn, opened, deferred, hpass]
  | refused =>
    obtain ⟨tr, ev, hu, hadv⟩ := (s.learn .refused e).advanceHalves_frame 2
    refine ⟨tr, ev, hu, ?_⟩
    simp only [done, hsettle, hlearn, reduceCtorEq, if_true, if_false]
    rw [hadv]
    simp [learn, opened, deferred, hpass]
  | filtered =>
    have hid : s.learn .filtered e = s := by simp [learn]
    simp only [done, hsettle, hlearn, reduceCtorEq, if_true, if_false]
    rw [hid]
    cases hearn : s.earnsRetry p e with
    | true =>
      obtain ⟨tr, ev, hu, hadv⟩ :=
        advanceHalves_frame { s with retries := s.retries ++ [p.deferral] } 1
      refine ⟨tr, ev, hu, ?_⟩
      simp only [hpass, if_true] at hadv ⊢
      rw [hadv]
      simp [opened, deferred, hearn]
    | false =>
      obtain ⟨tr, ev, hu, hadv⟩ := s.advanceHalves_frame 2
      refine ⟨tr, ev, hu, ?_⟩
      simp only [Bool.false_eq_true, if_false]
      rw [hadv]
      simp [opened, deferred, hearn, hpass]

/-- **A verdict of the second pass**, for a probe that is neither deferrable nor blind. -/
theorem done_retry {s : PortScan} (hpass : s.pass = .retry) {p : PortProbe}
    (hplain : p.deferrable = false ∧ p.blind = false) (o : Outcome) (e : Nat) :
    ∃ tracker events halfUnits, s.done p o e = { s.learn o e with
      tracker := tracker
      events := events
      halfUnits := halfUnits
      retries := if o = .filtered then
          s.retries.set s.silentTwice { port := p.target.port, waitedMs := p.target.timeoutMs }
        else s.retries
      silentTwice := if o = .filtered then s.silentTwice + 1 else s.silentTwice
      answeredTwice := if o = .filtered then s.answeredTwice else s.answeredTwice + 1
      openPorts := s.opened p.target.port o
      appends := if o = .open then s.appends + 1 else s.appends } := by
  have hsettle : ∀ o, ((s.learn o e).settleRetry p o).pass = .retry := fun o =>
    ((s.learn o e).settleRetry_pass p o).trans ((s.learn_pass o e).trans hpass)
  have hplain' : ∀ s : PortScan, s.earnsRetry p e = false := by
    intro s
    simp [earnsRetry, hplain]
  cases o with
  | «open» =>
    obtain ⟨tr, ev, hrec⟩ := ((s.learn .open e).settleRetry p .open).recordOpen_frame p.target.port
    obtain ⟨tr', ev', hu, hadv⟩ :=
      (((s.learn .open e).settleRetry p .open).recordOpen p.target.port).advanceHalves_frame 1
    refine ⟨tr', ev', hu, ?_⟩
    simp only [done, hsettle, reduceCtorEq, if_false]
    rw [hadv, hrec]
    simp [settleRetry, hpass, learn, opened]
  | refused =>
    obtain ⟨tr, ev, hu, hadv⟩ :=
      ((s.learn .refused e).settleRetry p .refused).advanceHalves_frame 1
    refine ⟨tr, ev, hu, ?_⟩
    simp only [done, hsettle, reduceCtorEq, if_false]
    rw [hadv]
    simp [settleRetry, hpass, learn, opened]
  | filtered =>
    obtain ⟨tr, ev, hu, hadv⟩ :=
      ((s.learn .filtered e).settleRetry p .filtered).advanceHalves_frame 1
    refine ⟨tr, ev, hu, ?_⟩
    simp only [done, hsettle, hplain', reduceCtorEq, if_false]
    rw [hadv]
    simp [settleRetry, hpass, learn, opened]

/-- **A verdict of the third pass.** -/
theorem done_third {s : PortScan} (hpass : s.pass = .third) (p : PortProbe) (o : Outcome)
    (e : Nat) :
    ∃ tracker events, s.done p o e = { s.learn o e with
      tracker := tracker
      events := events
      openPorts := s.opened p.target.port o
      appends := if o = .open then s.appends + 1 else s.appends } := by
  have hlearn : ∀ o, (s.learn o e).pass = .third := fun o => (s.learn_pass o e).trans hpass
  have hsettle : ∀ o, (s.learn o e).settleRetry p o = s.learn o e :=
    fun o => settleRetry_of_ne (by simp [hlearn]) p o
  cases o with
  | «open» =>
    obtain ⟨tr, ev, hrec⟩ := (s.learn .open e).recordOpen_frame p.target.port
    refine ⟨tr, ev, ?_⟩
    simp only [done, hsettle, hlearn, if_true]
    rw [hrec]
    simp [learn, opened, hpass]
  | refused =>
    refine ⟨s.tracker, s.events, ?_⟩
    simp only [done, hsettle, hlearn, reduceCtorEq, if_true, if_false]
    simp [learn, opened, hpass]
  | filtered =>
    refine ⟨s.tracker, s.events, ?_⟩
    simp only [done, hsettle, hlearn, reduceCtorEq, if_true, if_false]
    obtain ⟨est, fast, hl⟩ := s.learn_frame .filtered e
    rw [hl, ← hpass]
    rfl

/-! ## The ports the first pass still has to hand out -/

/-- Whether a port is in the range of a scan. -/
def inRange (s : PortScan) (port : Nat) : Bool := decide (s.start ≤ port ∧ port ≤ s.end)

/-- The unranked ports from `port` on. -/
def unrankedFrom (t : PortTable) (s : PortScan) (port : Nat) : List Nat :=
  (List.range' port (s.end + 1 - port)).filter fun port => t.rank port = 0

/-- The ports the first pass has not handed out yet, in the order it will. -/
def firstLeft (t : PortTable) (s : PortScan) : List Nat :=
  (t.byRank.drop s.nextRanked).filter s.inRange ++ unrankedFrom t s s.nextPort

theorem skipRanked_cases (s : PortScan) (ranked : List Nat) :
    (∃ port k, s.skipRanked ranked = (some port, { s with nextRanked := s.nextRanked + k }) ∧
      ranked.filter s.inRange = port :: (ranked.drop k).filter s.inRange) ∨
    (s.skipRanked ranked = (none, { s with nextRanked := s.nextRanked + ranked.length }) ∧
      ranked.filter s.inRange = []) := by
  induction ranked generalizing s with
  | nil => exact Or.inr ⟨rfl, rfl⟩
  | cons port rest ih =>
    unfold skipRanked
    by_cases hin : s.start ≤ port ∧ port ≤ s.end
    · left
      refine ⟨port, 1, ?_, ?_⟩
      · simp only []
        rw [if_pos hin]
      · rw [List.filter_cons_of_pos (by simpa [inRange] using hin), List.drop_one, List.tail_cons]
    · have hskip : ¬(s.inRange port = true) := by simpa [inRange] using hin
      simp only []
      rw [if_neg hin, List.filter_cons_of_neg hskip]
      rcases ih { s with nextRanked := s.nextRanked + 1 } with ⟨p, k, h, hf⟩ | ⟨h, hf⟩
      · left
        refine ⟨p, k + 1, ?_, hf⟩
        rw [h]
        simp only [Nat.add_assoc, Nat.add_comm 1]
      · right
        refine ⟨?_, hf⟩
        rw [h]
        simp only [List.length_cons, Nat.add_assoc, Nat.add_comm 1]

theorem skipUnranked_cases (t : PortTable) (rounds : Nat) (s : PortScan)
    (hrounds : rounds = s.end + 1 - s.nextPort) :
    (∃ port k, skipUnranked t rounds s = (some port, { s with nextPort := k }) ∧
      unrankedFrom t s s.nextPort = port :: unrankedFrom t s k) ∨
    (∃ k, skipUnranked t rounds s = (none, { s with nextPort := k }) ∧
      unrankedFrom t s s.nextPort = [] ∧ unrankedFrom t s k = []) := by
  induction rounds generalizing s with
  | zero =>
    right
    have hnil : unrankedFrom t s s.nextPort = [] := by simp [unrankedFrom, ← hrounds]
    exact ⟨s.nextPort, rfl, hnil, hnil⟩
  | succ rounds ih =>
    have hle : s.nextPort ≤ s.end := by omega
    have hsucc : rounds = s.end + 1 - (s.nextPort + 1) := by omega
    have hsplit : List.range' s.nextPort (s.end + 1 - s.nextPort) =
        s.nextPort :: List.range' (s.nextPort + 1) (s.end + 1 - (s.nextPort + 1)) := by
      rw [← hrounds, ← hsucc, List.range'_succ]
    unfold skipUnranked
    simp only []
    rw [if_pos hle]
    by_cases hrank : t.rank s.nextPort = 0
    · left
      refine ⟨s.nextPort, s.nextPort + 1, by rw [if_pos hrank], ?_⟩
      rw [unrankedFrom, hsplit, List.filter_cons_of_pos (by simpa using hrank), unrankedFrom]
    · rw [if_neg hrank, unrankedFrom, hsplit, List.filter_cons_of_neg (by simpa using hrank)]
      exact ih { s with nextPort := s.nextPort + 1 } hsucc

/-- **`nextFirstPort` takes the head of the ports left.** -/
theorem nextFirstPort_cases (t : PortTable) (s : PortScan) :
    (∃ port nr np, s.nextFirstPort t = (some port, { s with nextRanked := nr, nextPort := np }) ∧
      s.firstLeft t = port :: firstLeft t { s with nextRanked := nr, nextPort := np }) ∨
    (∃ nr np, s.nextFirstPort t = (none, { s with nextRanked := nr, nextPort := np }) ∧
      s.firstLeft t = [] ∧ firstLeft t { s with nextRanked := nr, nextPort := np } = []) := by
  unfold nextFirstPort
  rcases s.skipRanked_cases (t.byRank.drop s.nextRanked) with ⟨port, k, h, hf⟩ | ⟨h, hf⟩
  · left
    refine ⟨port, s.nextRanked + k, s.nextPort, by rw [h], ?_⟩
    rw [firstLeft, hf, List.drop_drop]
    rfl
  · rw [h]
    simp only []
    -- past the ranked ports nothing is left there
    have hpast : ∀ np, firstLeft t { s with
        nextRanked := s.nextRanked + (t.byRank.drop s.nextRanked).length
        nextPort := np } = unrankedFrom t s np := by
      intro np
      have hdrop : t.byRank.drop (s.nextRanked + (t.byRank.drop s.nextRanked).length) = [] :=
        List.drop_eq_nil_of_le (by rw [List.length_drop]; omega)
      simp only [firstLeft, hdrop, List.filter_nil, List.nil_append]
      rfl
    rcases skipUnranked_cases t (s.end + 1 - s.nextPort)
      { s with nextRanked := s.nextRanked + (t.byRank.drop s.nextRanked).length } rfl with
      ⟨port, k, h', hf'⟩ | ⟨k, h', hf', hf''⟩
    · left
      refine ⟨port, s.nextRanked + (t.byRank.drop s.nextRanked).length, k, h', ?_⟩
      rw [hpast, firstLeft, hf, List.nil_append]
      exact hf'
    · right
      refine ⟨s.nextRanked + (t.byRank.drop s.nextRanked).length, k, h', ?_, ?_⟩
      · rw [firstLeft, hf, List.nil_append]
        exact hf'
      · rw [hpast]
        exact hf''

/-- The range itself is what the first pass starts with, in another order: a port is ranked
or it is not. -/
theorem firstLeft_perm_range (t : PortTable) {s : PortScan} (hranked : s.nextRanked = 0)
    (hport : s.nextPort = s.start) : (s.firstLeft t).Perm (List.range' s.start s.total) := by
  have hnodup : (s.firstLeft t).Nodup := by
    rw [firstLeft, hranked, List.drop_zero, List.nodup_append]
    refine ⟨t.nodup_byRank.filter _, List.Nodup.filter _ List.nodup_range', ?_⟩
    rintro a ha b hb rfl
    have hrank := (t.mem_byRank_iff a).mp (List.mem_of_mem_filter ha)
    exact hrank (by simpa using (List.mem_filter.mp hb).2)
  rw [List.perm_ext_iff_of_nodup hnodup List.nodup_range']
  intro port
  rw [firstLeft, hranked, hport, List.drop_zero, unrankedFrom, List.mem_append, List.mem_filter,
    List.mem_filter, t.mem_byRank_iff, List.mem_range'_1, List.mem_range'_1]
  simp only [inRange, total, decide_eq_true_eq]
  constructor
  · rintro (⟨_, h⟩ | ⟨h, _⟩) <;> omega
  · intro h
    by_cases hrank : t.rank port = 0
    · exact Or.inr ⟨by omega, hrank⟩
    · exact Or.inl ⟨hrank, by omega⟩

/-! ## What `next` hands out -/

@[simp] theorem probe_port (s : PortScan) (port timeoutMs : Nat) (d : Bool) :
    (s.probe port timeoutMs d).target.port = port := rfl

theorem firstTry_port (s : PortScan) (port : Nat) : (s.firstTry port).target.port = port := by
  unfold firstTry
  split
  · rfl
  · split
    · rfl
    · split <;> rfl

/-- With `--timeout` no first try is deferrable or blind. -/
theorem firstTry_plain {s : PortScan} {ms : Nat} (h : s.fixedMs = some ms) (port : Nat) :
    (s.firstTry port).deferrable = false ∧ (s.firstTry port).blind = false := by
  unfold firstTry
  rw [h]
  exact ⟨rfl, rfl⟩

theorem next_first_some {t : PortTable} {s s' : PortScan} {job : PortProbe}
    (hpass : s.pass = .first) (h : s.next t = (some job, s')) :
    ∃ nr np port, s' = { s with looks := s.looks + 1, nextRanked := nr, nextPort := np } ∧
      s.firstLeft t = port :: s'.firstLeft t ∧ job = s'.firstTry port := by
  unfold next stopRequested at h
  cases hstop : s.run.cancel s.looks with
  | true => simp [hstop] at h
  | false =>
    simp only [hstop, hpass] at h
    rcases nextFirstPort_cases t { s with looks := s.looks + 1 } with
      ⟨port, nr, np, heq, hleft⟩ | ⟨nr, np, heq, _⟩
    · simp only [hpass] at heq
      rw [heq] at h
      simp only [Prod.mk.injEq, Option.some.injEq] at h
      obtain ⟨rfl, rfl⟩ := h
      exact ⟨nr, np, port, by rw [hpass], hleft, rfl⟩
    · simp only [hpass] at heq
      rw [heq] at h
      simp at h

theorem next_first_none {t : PortTable} {s s' : PortScan} (hpass : s.pass = .first)
    (h : s.next t = (none, s')) :
    ∃ nr np, s' = { s with looks := s.looks + 1, nextRanked := nr, nextPort := np } ∧
      s'.firstLeft t = s.firstLeft t ∧
      (s.run.cancel s.looks = false → s.firstLeft t = []) := by
  unfold next stopRequested at h
  cases hstop : s.run.cancel s.looks with
  | true =>
    simp only [hstop, Prod.mk.injEq, true_and] at h
    subst h
    exact ⟨s.nextRanked, s.nextPort, rfl, rfl, by simp⟩
  | false =>
    simp only [hstop, hpass] at h
    rcases nextFirstPort_cases t { s with looks := s.looks + 1 } with
      ⟨port, nr, np, heq, _⟩ | ⟨nr, np, heq, hleft, hleft'⟩
    · simp only [hpass] at heq
      rw [heq] at h
      simp at h
    · simp only [hpass] at heq
      rw [heq] at h
      simp only [Prod.mk.injEq, true_and] at h
      subst h
      exact ⟨nr, np, by rw [hpass], hleft'.trans hleft.symm, fun _ => hleft⟩

theorem next_retry_some {t : PortTable} {s s' : PortScan} {job : PortProbe}
    (hpass : s.pass = .retry) (h : s.next t = (some job, s')) :
    ∃ deferred, s.retries[s.nextRetry]? = some deferred ∧
      s' = { s with looks := s.looks + 1, nextRetry := s.nextRetry + 1 } ∧
      job = s'.secondTry deferred := by
  unfold next stopRequested at h
  cases hstop : s.run.cancel s.looks with
  | true => simp [hstop] at h
  | false =>
    simp only [hstop, hpass] at h
    split at h
    · simp at h
    · next deferred heq =>
      simp only [Prod.mk.injEq, Option.some.injEq] at h
      obtain ⟨rfl, rfl⟩ := h
      exact ⟨deferred, heq, by rw [hpass], rfl⟩

theorem next_retry_none {t : PortTable} {s s' : PortScan} (hpass : s.pass = .retry)
    (h : s.next t = (none, s')) :
    s' = { s with looks := s.looks + 1 } ∧
      (s.run.cancel s.looks = false → s.retries.length ≤ s.nextRetry) := by
  unfold next stopRequested at h
  cases hstop : s.run.cancel s.looks with
  | true =>
    simp only [hstop, Prod.mk.injEq, true_and] at h
    exact ⟨h.symm, by simp⟩
  | false =>
    simp only [hstop, hpass] at h
    split at h
    · next heq =>
      simp only [Prod.mk.injEq, true_and] at h
      subst h
      exact ⟨by rw [hpass], fun _ => List.getElem?_eq_none_iff.mp heq⟩
    · simp at h

theorem next_third_some {t : PortTable} {s s' : PortScan} {job : PortProbe}
    (hpass : s.pass = .third) (h : s.next t = (some job, s')) :
    ∃ deferred, s.nextThird < s.silentTwice ∧ s.retries[s.nextThird]? = some deferred ∧
      s' = { s with looks := s.looks + 1, nextThird := s.nextThird + 1 } ∧
      job.target.port = deferred.port := by
  unfold next stopRequested at h
  cases hstop : s.run.cancel s.looks with
  | true => simp [hstop] at h
  | false =>
    simp only [hstop, hpass] at h
    split at h
    · simp at h
    · next hlt =>
      split at h
      · simp at h
      · next deferred heq =>
        simp only [Prod.mk.injEq, Option.some.injEq] at h
        obtain ⟨rfl, rfl⟩ := h
        exact ⟨deferred, by omega, heq, by rw [hpass], rfl⟩

theorem next_third_none {t : PortTable} {s s' : PortScan} (hpass : s.pass = .third)
    (h : s.next t = (none, s')) :
    s' = { s with looks := s.looks + 1 } ∧
      (s.run.cancel s.looks = false → s.silentTwice ≤ s.retries.length →
        s.silentTwice ≤ s.nextThird) := by
  unfold next stopRequested at h
  cases hstop : s.run.cancel s.looks with
  | true =>
    simp only [hstop, Prod.mk.injEq, true_and] at h
    exact ⟨h.symm, by simp⟩
  | false =>
    simp only [hstop, hpass] at h
    split at h
    · next hle =>
      simp only [Prod.mk.injEq, true_and] at h
      subst h
      exact ⟨by rw [hpass], fun _ _ => hle⟩
    · next hlt =>
      split at h
      · next heq =>
        rw [List.getElem?_eq_none_iff] at heq
        simp only [Prod.mk.injEq, true_and] at h
        subst h
        exact ⟨by rw [hpass], fun _ hlen => Nat.le_trans hlen heq⟩
      · simp at h

end PortScan

end NetScanner.Ports
