import NetScanner.Ports.Whole

/-!
# How long a port may keep a scan waiting

`src/core/scanner.zig`, `PortScan.next`: without `--timeout` every wait comes from an estimator
that keeps moving, or is the full wait. The first try is deferrable only when two of its waits
fit in the full one, and the second waits no longer than the first left of it.

A watcher notes the tries of each pass (`Tries`). `FirstTries`, `SecondTries` and `ThirdTries`
are the invariants of the three passes: what is still to be tried again is what the first pass
left (`Deferred.From`), because the second overwrites only entries it has handed out.
-/

namespace NetScanner.Ports

open Infra Connects

namespace PortScan

/-- A scan that learns its waits. -/
structure Learning (s : PortScan) : Prop where
  fixedMs : s.fixedMs = none
  floorMs : s.estimator.floorMs = portTimeoutFloorMs
  ceilingMs : s.estimator.ceilingMs = portTimeoutMs

theorem Learning.timeoutMs {s : PortScan} (h : s.Learning) :
    portTimeoutFloorMs ≤ s.estimator.timeoutMs ∧ s.estimator.timeoutMs ≤ portTimeoutMs := by
  have hle : s.estimator.floorMs ≤ s.estimator.ceilingMs := by
    rw [h.floorMs, h.ceilingMs]
    decide
  have hmem := RttEstimator.timeoutMs_mem hle
  rwa [h.floorMs, h.ceilingMs] at hmem

theorem Learning.learn {s : PortScan} (h : s.Learning) (o : Outcome) (e : Nat) :
    (s.learn o e).Learning := by
  unfold PortScan.learn
  split
  · obtain ⟨hfloor, hceiling⟩ := s.estimator.observe_bounds e
    exact ⟨h.fixedMs, hfloor.trans h.floorMs, hceiling.trans h.ceilingMs⟩
  · exact h

/-- The waits of a first try. -/
structure FirstWait (p : PortProbe) : Prop where
  floor : portTimeoutFloorMs ≤ p.target.timeoutMs
  ceiling : p.target.timeoutMs ≤ portTimeoutMs
  deferrable : p.deferrable = true → 2 * p.target.timeoutMs ≤ portTimeoutMs

theorem Learning.firstTry {s : PortScan} (h : s.Learning) (port : Nat) :
    FirstWait (s.firstTry port) := by
  have hle : portTimeoutFloorMs ≤ portTimeoutMs := by decide
  unfold PortScan.firstTry
  rw [h.fixedMs]
  simp only []
  split
  · exact ⟨hle, le_rfl, by simp [PortScan.probe]⟩
  · split
    · next learnedMs hlearned =>
      unfold PortScan.learnedWait at hlearned
      simp only [] at hlearned
      split at hlearned
      · simp at hlearned
      · next hnear =>
        rw [Option.some.injEq] at hlearned
        rw [not_or, Nat.not_lt, Nat.not_lt, hlearned] at hnear
        have htimeout := h.timeoutMs
        rw [hlearned] at htimeout
        exact ⟨htimeout.1, htimeout.2, fun _ => hnear.2⟩
    · exact ⟨hle, le_rfl, by simp [PortScan.probe]⟩

/-- An unanswered try that earns another was deferrable or blind. -/
theorem halved_of_earnsRetry {s : PortScan} {p : PortProbe} {e : Nat} (hp : FirstWait p)
    (hearns : s.earnsRetry p e = true) :
    p.blind = false → 2 * p.target.timeoutMs ≤ portTimeoutMs := by
  intro hblind
  refine hp.deferrable ?_
  unfold PortScan.earnsRetry at hearns
  simpa [hblind] using hearns

end PortScan

/-! ## The tries of a scan -/

/-- The tries handed out so far. -/
structure Tries where
  first : List PortProbe := []
  second : List PortProbe := []
  third : List PortProbe := []

/-- What a watcher of the scan notes. -/
def noteTry (t : PortTable) (tries : Tries) (m : Scanning) : ScanLabel → Tries
  | .next =>
    match (m.scan.next t).1 with
    | none => tries
    | some probe =>
      match m.scan.pass with
      | .first => { tries with first := tries.first ++ [probe] }
      | .retry => { tries with second := tries.second ++ [probe] }
      | .third => { tries with third := tries.third ++ [probe] }
  | .report _ _ _ => tries
  | .turn => tries

/-- **The waits of a port.** It is tried once in each pass at most. -/
structure Tries.InBudget (tries : Tries) : Prop where
  first : ∀ p ∈ tries.first, PortScan.FirstWait p
  firstOnce : (ports tries.first).Nodup
  second : ∀ q ∈ tries.second,
    portTimeoutFloorMs ≤ q.target.timeoutMs ∧ q.target.timeoutMs ≤ portTimeoutMs
  secondOnce : (ports tries.second).Nodup
  /-- A first try that was not blind, and the second. -/
  together : ∀ p ∈ tries.first, ∀ q ∈ tries.second, p.target.port = q.target.port →
    p.blind = false → p.target.timeoutMs + q.target.timeoutMs ≤ portTimeoutMs
  third : ∀ r ∈ tries.third,
    portTimeoutFloorMs ≤ r.target.timeoutMs ∧ r.target.timeoutMs ≤ portTimeoutMs
  thirdOnce : (ports tries.third).Nodup

/-- An entry the first pass left: of one of its tries, that waited half the full wait at most
unless it was blind. -/
def Deferred.From (first : List PortProbe) (d : Deferred) : Prop :=
  ∃ p ∈ first, d = p.deferral ∧ (p.blind = false → 2 * p.target.timeoutMs ≤ portTimeoutMs)

/-- The ports of the probes that are out. -/
def portsOut (out : Multiset PortProbe) : Multiset Nat := out.map fun p => p.target.port

@[simp] theorem portsOut_cons (p : PortProbe) (out : Multiset PortProbe) :
    portsOut (p ::ₘ out) = p.target.port ::ₘ portsOut out := Multiset.map_cons _ _ _

/-! ## The first pass -/

section First

variable {t : PortTable} {s₀ : PortScan} {m m' : Scanning} {tries : Tries}

/-- The invariant of the first pass. -/
structure FirstTries (t : PortTable) (s₀ : PortScan) (m : Scanning) (tries : Tries) : Prop where
  pass : m.scan.pass = .first
  learning : m.scan.Learning
  cursors : m.scan.nextRetry = 0 ∧ m.scan.silentTwice = 0 ∧ m.scan.answeredTwice = 0 ∧
    m.scan.nextThird = 0
  later : tries.second = [] ∧ tries.third = []
  waits : ∀ p ∈ tries.first, PortScan.FirstWait p
  left : ports tries.first ++ m.scan.firstLeft t = s₀.firstLeft t
  out : ∀ p ∈ m.out, p ∈ tries.first
  deferred : ∀ d ∈ m.scan.retries, d.From tries.first
  /-- A port is deferred once it is no longer out. -/
  settled : (m.scan.retries.map Deferred.port : Multiset Nat) + portsOut m.out ≤
    (ports tries.first : Multiset Nat)

theorem Deferred.From.mono {first first' : List PortProbe} {d : Deferred} (h : d.From first)
    (hsub : first ⊆ first') : d.From first' := by
  obtain ⟨p, hp, hd⟩ := h
  exact ⟨p, hsub hp, hd⟩

theorem FirstTries.hand (h : FirstTries t s₀ m tries) {s' : PortScan} {probe : PortProbe}
    (hnext : m.scan.next t = (some probe, s')) :
    FirstTries t s₀ { m with scan := s', out := probe ::ₘ m.out }
      { tries with first := tries.first ++ [probe] } := by
  obtain ⟨nr, np, port, hs', hleft, rfl⟩ := PortScan.next_first_some h.pass hnext
  have hlearning : s'.Learning := by
    rw [hs']
    exact ⟨h.learning.fixedMs, h.learning.floorMs, h.learning.ceilingMs⟩
  have hretries : s'.retries = m.scan.retries := by rw [hs']
  refine ⟨by rw [hs']; exact h.pass, hlearning, by rw [hs']; exact h.cursors, h.later, ?_, ?_, ?_,
    ?_, ?_⟩
  · intro p hp
    rcases List.mem_append.mp hp with hp | hp
    · exact h.waits p hp
    · rw [List.mem_singleton] at hp
      rw [hp]
      exact hlearning.firstTry port
  · rw [ports_append, ports_singleton, PortScan.firstTry_port, List.append_assoc,
      List.singleton_append]
    show ports tries.first ++ port :: s'.firstLeft t = _
    rw [← hleft]
    exact h.left
  · intro p hp
    rcases Multiset.mem_cons.mp hp with rfl | hp
    · simp
    · exact List.mem_append_left _ (h.out p hp)
  · intro d hd
    refine (h.deferred d ?_).mono (List.subset_append_left _ _)
    rw [← hretries]
    exact hd
  · show (s'.retries.map Deferred.port : Multiset Nat) + _ ≤ _
    rw [hretries, portsOut_cons, Multiset.add_cons, ports_append, ports_singleton,
      ← Multiset.coe_add, Multiset.coe_singleton, ← Multiset.singleton_add, add_comm {_}]
    exact Multiset.add_le_add_right h.settled

theorem FirstTries.dryUp (h : FirstTries t s₀ m tries) {s' : PortScan}
    (hnext : m.scan.next t = (none, s')) :
    FirstTries t s₀ { m with scan := s', dry := true } tries := by
  obtain ⟨nr, np, hs', hleft, _⟩ := PortScan.next_first_none h.pass hnext
  refine ⟨by rw [hs']; exact h.pass, ?_, by rw [hs']; exact h.cursors, h.later, h.waits, ?_, h.out,
    ?_, ?_⟩
  · rw [hs']
    exact ⟨h.learning.fixedMs, h.learning.floorMs, h.learning.ceilingMs⟩
  · rw [hleft]
    exact h.left
  · rw [hs']
    exact h.deferred
  · rw [hs']
    exact h.settled

theorem FirstTries.report (h : FirstTries t s₀ m tries) {probe : PortProbe}
    {out : Multiset PortProbe} (hout : m.out = probe ::ₘ out) (o : Outcome) (e : Nat) :
    FirstTries t s₀ { m with scan := m.scan.done probe o e, out := out } tries := by
  have hmem : probe ∈ tries.first := h.out probe (by rw [hout]; exact Multiset.mem_cons_self _ _)
  have hlearning := h.learning.learn o e
  obtain ⟨est, fast, hlearn⟩ := m.scan.learn_frame o e
  obtain ⟨tr, ev, hu, hdone⟩ := PortScan.done_first h.pass probe o e
  rw [hlearn] at hdone hlearning
  have hsettled := h.settled
  rw [hout, portsOut_cons] at hsettled
  refine ⟨by rw [hdone]; exact h.pass, by rw [hdone]; exact ⟨hlearning.1, hlearning.2, hlearning.3⟩,
    by rw [hdone]; exact h.cursors, h.later, h.waits, by rw [hdone]; exact h.left,
    fun p hp => h.out p (by rw [hout]; exact Multiset.mem_cons_of_mem hp), ?_, ?_⟩
  · rw [hdone]
    show ∀ d ∈ m.scan.deferred probe o e, _
    unfold PortScan.deferred
    split
    · next hearns =>
      intro d hd
      rcases List.mem_append.mp hd with hd | hd
      · exact h.deferred d hd
      · rw [List.mem_singleton] at hd
        exact ⟨probe, hmem, hd, PortScan.halved_of_earnsRetry (h.waits probe hmem) hearns.2⟩
    · exact h.deferred
  · rw [hdone]
    show ((m.scan.deferred probe o e).map Deferred.port : Multiset Nat) + portsOut out ≤ _
    unfold PortScan.deferred
    split
    · rw [List.map_append, List.map_cons, List.map_nil, ← Multiset.coe_add, Multiset.coe_singleton,
        add_assoc, Multiset.singleton_add]
      exact hsettled
    · refine le_trans ?_ hsettled
      rw [Multiset.add_cons]
      exact Multiset.le_cons_self _ _

theorem FirstTries.inBudget (h : FirstTries t s₀ m tries) (hs₀ : (s₀.firstLeft t).Nodup) :
    tries.InBudget where
  first := h.waits
  firstOnce := by
    rw [← h.left] at hs₀
    exact (List.nodup_append.mp hs₀).1
  second := by simp [h.later]
  secondOnce := by simp [h.later, ports]
  together := by simp [h.later]
  third := by simp [h.later]
  thirdOnce := by simp [h.later, ports]

end First

/-! ## The second pass -/

section Second

variable {t : PortTable} {m : Scanning} {tries : Tries}

/-- The invariant of the second pass. -/
structure SecondTries (m : Scanning) (tries : Tries) : Prop where
  pass : m.scan.pass = .retry
  learning : m.scan.Learning
  later : m.scan.nextThird = 0 ∧ tries.third = []
  budget : tries.InBudget
  next_le : m.scan.nextRetry ≤ m.scan.retries.length
  /-- Every probe handed out is out, silent or answered. -/
  balance : m.scan.silentTwice + m.scan.answeredTwice + m.out.card = m.scan.nextRetry
  plain : ∀ q ∈ m.out, q.deferrable = false ∧ q.blind = false
  /-- What is not handed out yet is as the first pass left it. -/
  pending : ∀ d ∈ m.scan.retries.drop m.scan.nextRetry, d.From tries.first
  once : (ports tries.second ++
    (m.scan.retries.drop m.scan.nextRetry).map Deferred.port).Nodup
  /-- A port is silent twice once it is no longer out. -/
  settled : ((m.scan.retries.take m.scan.silentTwice).map Deferred.port : Multiset Nat) +
    portsOut m.out ≤ (ports tries.second : Multiset Nat)

theorem SecondTries.start {s₀ : PortScan} (h : FirstTries t s₀ m tries) (hout : m.out = 0)
    (hs₀ : (s₀.firstLeft t).Nodup) : SecondTries { scan := m.scan.second } tries := by
  obtain ⟨hnext, hsilent, hanswered, hthird⟩ := h.cursors
  have hbudget := h.inBudget hs₀
  have hsettled := h.settled
  rw [hout, portsOut, Multiset.map_zero, add_zero] at hsettled
  refine ⟨rfl, ⟨h.learning.fixedMs, h.learning.floorMs, h.learning.ceilingMs⟩,
    ⟨hthird, h.later.2⟩, hbudget, ?_, ?_, by simp, ?_, ?_, ?_⟩
  · show m.scan.nextRetry ≤ _
    rw [hnext]
    exact Nat.zero_le _
  · show m.scan.silentTwice + m.scan.answeredTwice + 0 = m.scan.nextRetry
    omega
  · show ∀ d ∈ m.scan.retries.drop m.scan.nextRetry, _
    rw [hnext]
    exact h.deferred
  · show (ports tries.second ++ (m.scan.retries.drop m.scan.nextRetry).map Deferred.port).Nodup
    rw [hnext, h.later.1]
    exact Multiset.coe_nodup.mp
      (Multiset.nodup_of_le hsettled (Multiset.coe_nodup.mpr hbudget.firstOnce))
  · show ((m.scan.retries.take m.scan.silentTwice).map Deferred.port : Multiset Nat) + 0 ≤ _
    rw [hsilent]
    exact Multiset.zero_le _

/-- The second wait is never more than the first left. -/
theorem secondTry_waits {s : PortScan} (hs : s.Learning) {first : List PortProbe} {d : Deferred}
    (hd : d.From first) (hfirst : ∀ p ∈ first, PortScan.FirstWait p) :
    (portTimeoutFloorMs ≤ (s.secondTry d).target.timeoutMs ∧
      (s.secondTry d).target.timeoutMs ≤ portTimeoutMs) ∧
      (d.blind = false → d.waitedMs ≤ portTimeoutMs ∧
        d.waitedMs + (s.secondTry d).target.timeoutMs ≤ portTimeoutMs) := by
  obtain ⟨p, hp, rfl, hhalf⟩ := hd
  have htimeout := hs.timeoutMs
  have hceiling := (hfirst p hp).ceiling
  have hfloor : 2 * portTimeoutFloorMs ≤ portTimeoutMs := by decide
  show (portTimeoutFloorMs ≤ min _ (if p.blind then _ else _) ∧
    min _ (if p.blind then _ else _) ≤ _) ∧
      (p.blind = false → p.target.timeoutMs ≤ _ ∧
        p.target.timeoutMs + min _ (if p.blind then _ else _) ≤ _)
  simp only [PortProbe.deferral]
  cases hblind : p.blind with
  | true =>
    simp only [if_true]
    exact ⟨⟨by omega, by omega⟩, by simp⟩
  | false =>
    have hhalf' := hhalf hblind
    simp only [Bool.false_eq_true, if_false]
    exact ⟨⟨by omega, by omega⟩, fun _ => ⟨by omega, by omega⟩⟩

theorem SecondTries.hand (h : SecondTries m tries) {s' : PortScan} {probe : PortProbe}
    (hnext : m.scan.next t = (some probe, s')) :
    SecondTries { m with scan := s', out := probe ::ₘ m.out }
      { tries with second := tries.second ++ [probe] } := by
  obtain ⟨d, hget, hs', rfl⟩ := PortScan.next_retry_some h.pass hnext
  obtain ⟨hlt, hslot⟩ := List.getElem?_eq_some_iff.mp hget
  have hlearning : s'.Learning := by
    rw [hs']
    exact ⟨h.learning.fixedMs, h.learning.floorMs, h.learning.ceilingMs⟩
  have hretries : s'.retries = m.scan.retries := by rw [hs']
  have hcursor : s'.nextRetry = m.scan.nextRetry + 1 := by rw [hs']
  have hsilent : s'.silentTwice = m.scan.silentTwice := by rw [hs']
  have hdrop : m.scan.retries.drop m.scan.nextRetry =
      d :: m.scan.retries.drop (m.scan.nextRetry + 1) := by
    rw [List.drop_eq_getElem_cons hlt, hslot]
  have hpending := h.pending
  have honce := h.once
  rw [hdrop] at hpending honce
  have hfrom := hpending d List.mem_cons_self
  obtain ⟨hwaits, htogether⟩ := secondTry_waits hlearning hfrom h.budget.first
  have hport : (s'.secondTry d).target.port = d.port := rfl
  have hports : ports (tries.second ++ [s'.secondTry d]) ++
      (m.scan.retries.drop (m.scan.nextRetry + 1)).map Deferred.port =
        ports tries.second ++ (d :: m.scan.retries.drop (m.scan.nextRetry + 1)).map
          Deferred.port := by
    rw [ports_append, ports_singleton, List.append_assoc, List.map_cons, hport]
    rfl
  refine ⟨by rw [hs']; exact h.pass, hlearning, by rw [hs']; exact h.later, ?_, ?_, ?_, ?_, ?_, ?_,
    ?_⟩
  · refine { h.budget with second := ?_, secondOnce := ?_, together := ?_ }
    · intro q hq
      rcases List.mem_append.mp hq with hq | hq
      · exact h.budget.second q hq
      · rw [List.mem_singleton] at hq
        rw [hq]
        exact hwaits
    · rw [← hports, List.nodup_append] at honce
      exact honce.1
    · intro p hp q hq heq hblind
      rcases List.mem_append.mp hq with hq | hq
      · exact h.budget.together p hp q hq heq hblind
      · rw [List.mem_singleton] at hq
        rw [hq] at heq ⊢
        -- a port has one first try, so this is the one the entry is of
        obtain ⟨p', hp', rfl, _⟩ := hfrom
        have hsame : p = p' := List.inj_on_of_nodup_map h.budget.firstOnce hp hp' heq
        exact (htogether (by rw [← hblind, hsame]; rfl)).2.trans' (by rw [hsame]; rfl)
  · rw [hs']
    exact hlt
  · have hbalance := h.balance
    rw [hs']
    simp only [Multiset.card_cons]
    omega
  · intro q hq
    rcases Multiset.mem_cons.mp hq with rfl | hq
    · exact ⟨rfl, rfl⟩
    · exact h.plain q hq
  · rw [hs']
    exact fun d' hd' => hpending d' (List.mem_cons_of_mem _ hd')
  · rw [← hports] at honce
    simp only [hretries, hcursor]
    exact honce
  · simp only [hretries, hsilent]
    show ((m.scan.retries.take m.scan.silentTwice).map Deferred.port : Multiset Nat) + _ ≤ _
    rw [portsOut_cons, hport, Multiset.add_cons, ports_append, ports_singleton, hport,
      ← Multiset.coe_add, Multiset.coe_singleton, ← Multiset.singleton_add, add_comm {_}]
    exact Multiset.add_le_add_right h.settled

theorem SecondTries.dryUp (h : SecondTries m tries) {s' : PortScan}
    (hnext : m.scan.next t = (none, s')) :
    SecondTries { m with scan := s', dry := true } tries := by
  obtain ⟨hs', _⟩ := PortScan.next_retry_none h.pass hnext
  subst hs'
  exact ⟨h.pass, ⟨h.learning.1, h.learning.2, h.learning.3⟩, h.later, h.budget, h.next_le,
    h.balance, h.plain, h.pending, h.once, h.settled⟩

theorem SecondTries.report (h : SecondTries m tries) {probe : PortProbe}
    {out : Multiset PortProbe} (hout : m.out = probe ::ₘ out) (o : Outcome) (e : Nat) :
    SecondTries { m with scan := m.scan.done probe o e, out := out } tries := by
  have hplain := h.plain probe (by rw [hout]; exact Multiset.mem_cons_self _ _)
  have hlearning := h.learning.learn o e
  obtain ⟨est, fast, hlearn⟩ := m.scan.learn_frame o e
  obtain ⟨tr, ev, hu, hdone⟩ := PortScan.done_retry h.pass hplain o e
  rw [hlearn] at hdone hlearning
  have hbalance := h.balance
  have hsettled := h.settled
  rw [hout, Multiset.card_cons] at hbalance
  rw [hout, portsOut_cons] at hsettled
  have hplain' : ∀ q ∈ out, q.deferrable = false ∧ q.blind = false :=
    fun q hq => h.plain q (by rw [hout]; exact Multiset.mem_cons_of_mem hq)
  -- the slot the verdict may overwrite was handed out before
  have hlt : m.scan.silentTwice < m.scan.nextRetry := by omega
  have hle := h.next_le
  rw [hdone]
  by_cases ho : o = .filtered
  · simp only [ho, if_true]
    refine ⟨h.pass, ⟨hlearning.1, hlearning.2, hlearning.3⟩, h.later, h.budget, ?_, ?_, hplain', ?_,
      ?_, ?_⟩
    · simpa using hle
    · simp only []
      omega
    · simp only [List.drop_set_of_lt hlt]
      exact h.pending
    · simp only [List.drop_set_of_lt hlt]
      exact h.once
    · have htake : (m.scan.retries.set m.scan.silentTwice
          { port := probe.target.port, waitedMs := probe.target.timeoutMs }).take
            (m.scan.silentTwice + 1) = m.scan.retries.take m.scan.silentTwice ++
              [{ port := probe.target.port, waitedMs := probe.target.timeoutMs }] := by
        rw [List.take_add_one, List.take_set_of_le le_rfl, List.getElem?_set_self (by omega)]
        rfl
      simp only [htake, List.map_append, List.map_cons, List.map_nil, ← Multiset.coe_add,
        Multiset.coe_singleton, add_assoc, Multiset.singleton_add]
      exact hsettled
  · simp only [ho, if_false]
    refine ⟨h.pass, ⟨hlearning.1, hlearning.2, hlearning.3⟩, h.later, h.budget, hle, ?_, hplain',
      h.pending, h.once, ?_⟩
    · simp only []
      omega
    · refine le_trans ?_ hsettled
      rw [Multiset.add_cons]
      exact Multiset.le_cons_self _ _

end Second

/-! ## The third pass -/

section Third

variable {t : PortTable} {m : Scanning} {tries : Tries}

/-- The invariant of the third pass. -/
structure ThirdTries (m : Scanning) (tries : Tries) : Prop where
  pass : m.scan.pass = .third
  learning : m.scan.Learning
  budget : tries.InBudget
  once : (ports tries.third ++
    ((m.scan.retries.take m.scan.silentTwice).drop m.scan.nextThird).map Deferred.port).Nodup

theorem ThirdTries.start (h : SecondTries m tries) (hout : m.out = 0) :
    ThirdTries { scan := m.scan.third } tries := by
  obtain ⟨hthird, hnil⟩ := h.later
  have hsettled := h.settled
  rw [hout, portsOut, Multiset.map_zero, add_zero] at hsettled
  have hthird' : m.scan.third = { m.scan with looks := m.scan.looks + 1, pass := .third } := by
    rw [PortScan.third, m.scan.needsThirdPass_snd]
  rw [hthird']
  refine ⟨rfl, ⟨h.learning.1, h.learning.2, h.learning.3⟩, h.budget, ?_⟩
  simp only [hthird, hnil]
  exact Multiset.coe_nodup.mp
    (Multiset.nodup_of_le hsettled (Multiset.coe_nodup.mpr h.budget.secondOnce))

/-- A third try waits what the scan has learned. -/
theorem PortScan.next_third_wait {s s' : PortScan} {probe : PortProbe} (hpass : s.pass = .third)
    (h : s.next t = (some probe, s')) : probe.target.timeoutMs = s.estimator.timeoutMs := by
  unfold PortScan.next PortScan.stopRequested at h
  split at h
  · simp at h
  · next heq =>
    rw [Prod.mk.injEq] at heq
    rw [← heq.2] at h
    simp only [hpass] at h
    split at h
    · simp at h
    · split at h
      · simp at h
      · rw [Prod.mk.injEq, Option.some.injEq] at h
        rw [← h.1]
        rfl

theorem ThirdTries.hand (h : ThirdTries m tries) {s' : PortScan} {probe : PortProbe}
    (hnext : m.scan.next t = (some probe, s')) :
    ThirdTries { m with scan := s', out := probe ::ₘ m.out }
      { tries with third := tries.third ++ [probe] } := by
  have hwait := PortScan.next_third_wait h.pass hnext
  obtain ⟨d, hlt, hget, hs', hport⟩ := PortScan.next_third_some h.pass hnext
  have htimeout := h.learning.timeoutMs
  obtain ⟨hlen, hslot⟩ := List.getElem?_eq_some_iff.mp hget
  have htaken : m.scan.nextThird < (m.scan.retries.take m.scan.silentTwice).length := by
    rw [List.length_take]
    omega
  have hdrop : (m.scan.retries.take m.scan.silentTwice).drop m.scan.nextThird =
      d :: (m.scan.retries.take m.scan.silentTwice).drop (m.scan.nextThird + 1) := by
    rw [List.drop_eq_getElem_cons htaken, List.getElem_take, hslot]
  have honce := h.once
  rw [hdrop, List.map_cons, ← hport, ← List.singleton_append, ← List.append_assoc,
    ← ports_singleton, ← ports_append] at honce
  subst hs'
  refine ⟨h.pass, ⟨h.learning.1, h.learning.2, h.learning.3⟩, ?_, honce⟩
  refine { h.budget with third := ?_, thirdOnce := (List.nodup_append.mp honce).1 }
  intro r hr
  rcases List.mem_append.mp hr with hr | hr
  · exact h.budget.third r hr
  · rw [List.mem_singleton] at hr
    rw [hr, hwait]
    exact htimeout

theorem ThirdTries.dryUp (h : ThirdTries m tries) {s' : PortScan}
    (hnext : m.scan.next t = (none, s')) :
    ThirdTries { m with scan := s', dry := true } tries := by
  obtain ⟨hs', _⟩ := PortScan.next_third_none h.pass hnext
  subst hs'
  exact ⟨h.pass, ⟨h.learning.1, h.learning.2, h.learning.3⟩, h.budget, h.once⟩

theorem ThirdTries.report (h : ThirdTries m tries) (probe : PortProbe) (out : Multiset PortProbe)
    (o : Outcome) (e : Nat) :
    ThirdTries { m with scan := m.scan.done probe o e, out := out } tries := by
  have hlearning := h.learning.learn o e
  obtain ⟨est, fast, hlearn⟩ := m.scan.learn_frame o e
  obtain ⟨tr, ev, hdone⟩ := PortScan.done_third h.pass probe o e
  rw [hlearn] at hdone hlearning
  rw [hdone]
  exact ⟨h.pass, ⟨hlearning.1, hlearning.2, hlearning.3⟩, h.budget, h.once⟩

end Third

/-! ## The whole scan -/

section Whole

variable {t : PortTable} {s₀ : PortScan} {m m' : Scanning} {tries : Tries}

/-- The invariant of a scan and its watcher: that of the pass it is in. -/
def Budgeted (t : PortTable) (s₀ : PortScan) (w : Scanning × Tries) : Prop :=
  FirstTries t s₀ w.1 w.2 ∨ SecondTries w.1 w.2 ∨ ThirdTries w.1 w.2

theorem Budgeted.next (h : Budgeted t s₀ (m, tries)) (hs : m.step t .next = some m') :
    Budgeted t s₀ (m', noteTry t tries m .next) := by
  obtain ⟨_, hcases⟩ := Scanning.step_next hs
  unfold noteTry
  rcases hcases with ⟨s', hnext, rfl⟩ | ⟨s', probe, hnext, rfl⟩
  · simp only [hnext]
    rcases h with h | h | h
    · exact Or.inl (h.dryUp hnext)
    · exact Or.inr (Or.inl (h.dryUp hnext))
    · exact Or.inr (Or.inr (h.dryUp hnext))
  · simp only [hnext]
    rcases h with h | h | h
    · have hpass : m.scan.pass = .first := h.pass
      simp only [hpass]
      exact Or.inl (h.hand hnext)
    · have hpass : m.scan.pass = .retry := h.pass
      simp only [hpass]
      exact Or.inr (Or.inl (h.hand hnext))
    · have hpass : m.scan.pass = .third := h.pass
      simp only [hpass]
      exact Or.inr (Or.inr (h.hand hnext))

theorem Budgeted.report (h : Budgeted t s₀ (m, tries)) {probe : PortProbe} {o : Outcome} {e : Nat}
    (hs : m.step t (.report probe o e) = some m') : Budgeted t s₀ (m', tries) := by
  obtain ⟨out, hout, rfl⟩ := Scanning.step_report hs
  rcases h with h | h | h
  · exact Or.inl (h.report hout o e)
  · exact Or.inr (Or.inl (h.report hout o e))
  · exact Or.inr (Or.inr (h.report probe out o e))

theorem Budgeted.turn (hs₀ : (s₀.firstLeft t).Nodup) (h : Budgeted t s₀ (m, tries))
    (hs : m.step t .turn = some m') : Budgeted t s₀ (m', tries) := by
  obtain ⟨⟨_, hout, _⟩, hturn⟩ := Scanning.step_turn hs
  rcases h with h | h | h
  · have hpass : m.scan.pass = .first := h.pass
    simp only [hpass, reduceCtorEq, false_and, or_false, true_and] at hturn
    rw [hturn]
    exact Or.inr (Or.inl (SecondTries.start h hout hs₀))
  · have hpass : m.scan.pass = .retry := h.pass
    simp only [hpass, reduceCtorEq, false_and, or_false, true_and, false_or] at hturn
    rcases hturn with rfl | rfl
    · exact Or.inr (Or.inr (ThirdTries.start h hout))
    · rw [PortScan.needsThirdPass_snd]
      exact Or.inr (Or.inl ⟨h.pass, ⟨h.learning.1, h.learning.2, h.learning.3⟩, h.later, h.budget,
        h.next_le, h.balance, h.plain, h.pending, h.once, h.settled⟩)
  · have hpass : m.scan.pass = .third := h.pass
    simp only [hpass, reduceCtorEq, false_and, true_and, false_or] at hturn
    rw [hturn]
    exact Or.inr (Or.inr ⟨h.pass, h.learning, h.budget, h.once⟩)

theorem Scanning.budgeted (hs₀ : (s₀.firstLeft t).Nodup)
    (hstart : FirstTries t s₀ { scan := s₀ } {}) {w : Scanning × Tries}
    (h : ((scanning t s₀).watch {} (noteTry t)).Reachable w) : Budgeted t s₀ w := by
  refine h.invariant (I := Budgeted t s₀) ?_ ?_
  · rintro ⟨m, tries⟩ ⟨hm, htries⟩
    simp only [scanning] at hm htries
    subst hm htries
    exact Or.inl hstart
  · rintro ⟨m, tries⟩ label ⟨m', tries'⟩ _ hw hs
    obtain ⟨hstep, hnote⟩ := Lts.watch_step hs
    simp only [] at hstep hnote
    subst hnote
    cases label with
    | next => exact hw.next hstep
    | report probe o e => exact hw.report hstep
    | turn => exact hw.turn hs₀ hstep

/--
**No port waits longer than its budget.** In every moment of a scan without `--timeout`,
whatever is answered and when: the waits handed out stay between the floor and the full wait;
those of a port's first and second try fit in one full wait, unless the first was blind; and the
second try's subtraction does not underflow.
-/
theorem waits_within_budget (t : PortTable) (run : Run) (ip : Net.Ip) (lo hi : Nat)
    (tracker : Progress.Tracker) {m : Scanning} {tries : Tries}
    (h : ((scanning t (PortScan.init run ip lo hi none tracker)).watch {} (noteTry t)).Reachable
      (m, tries)) :
    tries.InBudget ∧
      (m.scan.pass = .retry → ∀ d, m.scan.retries[m.scan.nextRetry]? = some d →
        d.blind = false → d.waitedMs ≤ portTimeoutMs) := by
  have hs₀ : ((PortScan.init run ip lo hi none tracker).firstLeft t).Nodup :=
    (PortScan.firstLeft_perm_range t rfl rfl).nodup_iff.mpr List.nodup_range'
  have hstart : FirstTries t (PortScan.init run ip lo hi none tracker)
      { scan := PortScan.init run ip lo hi none tracker } {} :=
    ⟨rfl, ⟨rfl, rfl, rfl⟩, ⟨rfl, rfl, rfl, rfl⟩, ⟨rfl, rfl⟩, by simp, rfl, by simp,
      by simp [PortScan.init], le_rfl⟩
  have hbudgeted := Scanning.budgeted hs₀ hstart h
  rcases hbudgeted with h | h | h
  · exact ⟨h.inBudget hs₀, fun hpass => absurd hpass (by rw [h.pass]; simp)⟩
  · refine ⟨h.budget, fun _ d hd hblind => ?_⟩
    obtain ⟨hlt, hslot⟩ := List.getElem?_eq_some_iff.mp hd
    have hmem : d ∈ m.scan.retries.drop m.scan.nextRetry := by
      rw [List.drop_eq_getElem_cons hlt, hslot]
      exact List.mem_cons_self
    exact ((secondTry_waits h.learning (h.pending d hmem) h.budget.first).2 hblind).1
  · exact ⟨h.budget, fun hpass => absurd hpass (by rw [h.pass]; simp)⟩

/-- A scan that learns from its first answer: the other port gets two short waits. -/
theorem waits_within_budget_two_ports :
    let t : PortTable :=
      { entries := [⟨22, 1⟩]
        byRank := [22]
        ascending := by decide
        port_pos := by decide
        built := by decide }
    let run : Run :=
      { output := { stream := true, json := true }
        cancel := fun _ => false
        memory := fun _ => true }
    ∃ m tries, ((scanning t (PortScan.init run (10, 0, 0, 1) 22 23 none {})).watch {}
        (noteTry t)).Reachable (m, tries) ∧
      tries.first.map (fun p => p.target.timeoutMs) = [500, 100] ∧
      tries.second.map (fun p => p.target.timeoutMs) = [100] ∧ tries.InBudget ∧
      (m.scan.pass = .retry → ∀ d, m.scan.retries[m.scan.nextRetry]? = some d →
        d.blind = false → d.waitedMs ≤ portTimeoutMs) := by
  intro t run
  let s₀ := PortScan.init run (10, 0, 0, 1) 22 23 none {}
  let blind : PortProbe :=
    { target :=
        { ip := (10, 0, 0, 1)
          port := 22
          timeoutMs := 500
          cutFloorMs := some 100 }
      deferrable := false
      blind := true }
  let learned : PortProbe :=
    { target :=
        { ip := (10, 0, 0, 1)
          port := 23
          timeoutMs := 100 }
      deferrable := true }
  let labels : List ScanLabel := [.next, .report blind .refused 1000, .next, .next,
    .report learned .filtered 100000, .turn, .next]
  have hend : (((scanning t s₀).watch {} (noteTry t)).exec ({ scan := s₀ }, {}) labels).map
      (fun w => (w.2.first.map (fun p => p.target.timeoutMs),
        w.2.second.map (fun p => p.target.timeoutMs))) = some ([500, 100], [100]) := by
    decide +kernel
  obtain ⟨⟨m, tries⟩, hexec, hval⟩ := Option.map_eq_some_iff.mp hend
  obtain ⟨hfirst, hsecond⟩ := Prod.mk.inj hval
  have hrun : ((scanning t s₀).watch {} (noteTry t)).Reachable (m, tries) :=
    ⟨({ scan := s₀ }, {}), labels, ⟨rfl, rfl⟩, hexec⟩
  exact ⟨m, tries, hrun, hfirst, hsecond, waits_within_budget t run (10, 0, 0, 1) 22 23 {} hrun⟩

end Whole

end NetScanner.Ports
