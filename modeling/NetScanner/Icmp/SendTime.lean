import NetScanner.Icmp.Accounts

/-!
# How long a ping sweep sleeps

Before it sleeps in `poll`, `icmp_ping_sweep` works out when the wait of the oldest host ends,
from the time its echo was sent. `sent_at` has that time for a host whose echo went out, and
what `malloc` left there for any other.

At the head of the loop `oldest` moves past every host that is settled, so it stops at a host in
flight, or at `next`. In the latter case the host `oldest` names is the next one an echo goes
to; when that send fails, the host is reported at once, and the sweep sleeps on a time that
was never written. `sendTime_iff` says that this is the only way for it to happen.
-/

namespace NetScanner.Icmp

open Infra

/-! ## The first send of an iteration -/

namespace SweepState

variable (c : SweepConfig)

/-- The send `while` goes on. -/
def sending (s : SweepState) : Bool :=
  s.stopped = false ∧ s.next < c.count ∧ s.inFlight < c.maxInFlight ∧ 0 < s.budget

/-- The echo to the next host fails for good: the network refuses it, or every socket has been
full for too long. -/
def sendFails (env : SweepEnv) (s : SweepState) : Bool :=
  match sendRound env.sends s.nsocks s.next s.nsocks with
  | .ok => false
  | .failed => true
  | .busy => 0 ≤ s.busySince ∧ busyGiveUpMs ≤ s.now - s.busySince

/-- Whether, since the head of the loop, an echo failed that was sent with nothing in flight
before it. -/
def firstSendFailed (failed : Bool) (s : SweepState) : SweepLabel → Bool
  | .run env =>
    match s.pc with
    | .head => false
    | .send => failed || (s.sending c && s.oldest = s.next && s.sendFails env)
    | _ => failed
  | _ => failed

/-- `wait_ms`, with every sum taken in 64 bits as the source takes it. -/
def waitMs64 (s : SweepState) : Int :=
  let wait := if s.oldest < s.next then
      Int.bmod (Int.bmod (Int.bmod (s.sentAt s.oldest + c.timeoutMs) (2 ^ 64) - s.now) (2 ^ 64))
        (2 ^ 32)
    else c.timeoutMs
  let wait := if s.stopped = false ∧ s.next < c.count ∧
      (s.busy = true ∨ s.inFlight < c.maxInFlight) then 1 else wait
  max wait 0

/-- A sum that wraps around gives the same `int`. -/
theorem waitMs64_eq (s : SweepState) : s.waitMs64 c = s.waitMs c := by
  have hdvd : (2 ^ 32 : Nat) ∣ 2 ^ 64 := Nat.pow_dvd_pow 2 (by decide)
  have hwrap : Int.bmod (Int.bmod (Int.bmod (s.sentAt s.oldest + c.timeoutMs) (2 ^ 64) - s.now)
      (2 ^ 64)) (2 ^ 32) = Int.bmod (s.sentAt s.oldest + c.timeoutMs - s.now) (2 ^ 32) := by
    rw [Int.bmod_bmod_of_dvd hdvd, Int.sub_bmod, Int.bmod_bmod_of_dvd hdvd, ← Int.sub_bmod]
  unfold waitMs64 waitMs
  rw [hwrap]

end SweepState

/-- The sweep, with a watcher for its first sends. -/
def watchedSweep (c : SweepConfig) : Lts (SweepState × Bool) SweepLabel :=
  (sweep c).watch false (SweepState.firstSendFailed c)

/-- `poll` is given a wait that ends within the timeout, worked out from the time an echo to the
oldest host went out. -/
structure RealSendTime (c : SweepConfig) (s : SweepState) (wait : Int) : Prop where
  sent : ∃ t, (t, .echo s.oldest .ok) ∈ s.log ∧ s.sentAt s.oldest ≤ t
  nonneg : 0 ≤ wait
  le_timeout : wait ≤ c.timeoutMs

variable {c : SweepConfig}

/-! ## What a send does -/

/-- What one turn of the send `while` can do. -/
inductive SendStep (c : SweepConfig) (env : SweepEnv) (s : SweepState) : SweepState → Prop
  | idle : s.sending c = false → SendStep c env s { s with pc := .endCheck }
  | full (since : Int) : s.sending c = true → s.sendFails env = false →
      SendStep c env s { s with
        toCore := s.toCore.note [.echo s.next .busy]
        busySince := since
        busy := true
        pc := .endCheck }
  | sent : s.sending c = true → s.sendFails env = false →
      SendStep c env s { s with
        toCore := { (s.toCore.note [.echo s.next .ok]).setHost s.next .inFlight with
          inFlight := sizeInc s.inFlight
          next := s.next + 1 }
        sentAt := Function.update s.sentAt s.next s.now
        busySince := -1
        budget := s.budget - 1 }
  | failed (o : SendOutcome) : s.sending c = true → s.sendFails env = true → o ≠ .ok →
      SendStep c env s { s with
        toCore := { (s.toCore.note [.echo s.next o]).report s.next false with next := s.next + 1 }
        busySince := -1
        budget := s.budget - 1 }

theorem send_step (env : SweepEnv) (s : SweepState) : SendStep c env s (s.send c env) := by
  unfold SweepState.send
  split
  · next h =>
    have hsending : s.sending c = true := by simpa [SweepState.sending] using h
    have hfails : s.sendFails env =
        match SweepState.sendRound env.sends s.nsocks s.next s.nsocks with
        | .ok => false
        | .failed => true
        | .busy => decide (0 ≤ s.busySince ∧ busyGiveUpMs ≤ s.now - s.busySince) := rfl
    simp only []
    generalize SweepState.sendRound env.sends s.nsocks s.next s.nsocks = outcome at hfails ⊢
    cases outcome with
    | ok =>
      simp only [reduceCtorEq, false_and, if_false, if_true]
      exact .sent hsending hfails
    | failed =>
      simp only [reduceCtorEq, false_and, if_false]
      exact .failed .failed hsending hfails (by simp)
    | busy =>
      simp only [true_and, reduceCtorEq, if_false] at hfails ⊢
      by_cases hsince : s.busySince < 0
      · -- the first time every socket is full: the wait for room starts now
        have hwait : s.now - s.now < busyGiveUpMs := by simp [busyGiveUpMs]
        simp only [hsince, if_true, hwait]
        refine .full s.now hsending ?_
        rw [hfails, decide_eq_false_iff_not]
        omega
      · simp only [hsince, if_false]
        split
        · next hwait =>
          refine .full s.busySince hsending ?_
          rw [hfails, decide_eq_false_iff_not]
          omega
        · next hover =>
          refine .failed .busy hsending ?_ (by simp)
          rw [hfails, decide_eq_true_iff]
          omega
  · next h =>
    refine .idle ?_
    rw [SweepState.sending, decide_eq_false_iff_not]
    exact h

/-! ## Send times -/

/-- A host in flight is not the one that was just reported. -/
theorem inFlight_of_set {hosts : List HostState} {i j : Nat}
    (h : (hosts.set j .reported)[i]? = some .inFlight) : hosts[i]? = some .inFlight := by
  rw [List.getElem?_set] at h
  split at h
  · split at h <;> simp at h
  · exact h

/-- A change adds to the log, and puts a host in flight only with an echo to it. -/
theorem Change.frame {k k' : Core} (h : Change c k k') :
    k.log <+: k'.log ∧ k.clock ≤ k'.clock ∧ ∀ i, k'.hosts[i]? = some .inFlight →
      k.hosts[i]? = some .inFlight ∨ i = k.next ∧ k'.next = k.next + 1 := by
  cases h with
  | rest | skip => exact ⟨List.prefix_rfl, Int.le_refl _, fun i hin => Or.inl hin⟩
  | tick ms =>
    refine ⟨List.prefix_rfl, ?_, fun i hin => Or.inl hin⟩
    show k.clock ≤ k.clock + ms
    omega
  | arrive | stop | busy | ignore | drained | quiet =>
    exact ⟨List.prefix_append _ _, Int.le_refl _, fun i hin => Or.inl hin⟩
  | expire =>
    exact ⟨List.prefix_append _ _, Int.le_refl _, fun i hin => Or.inl (inFlight_of_set hin)⟩
  | unsent | answer =>
    refine ⟨(List.prefix_append _ _).trans (List.prefix_append _ _), Int.le_refl _, ?_⟩
    exact fun i hin => Or.inl (inFlight_of_set hin)
  | sent =>
    refine ⟨List.prefix_append _ _, Int.le_refl _, fun i hin => ?_⟩
    by_cases hi : i = k.next
    · exact Or.inr ⟨hi, rfl⟩
    · left
      have hne := List.getElem?_set_ne (l := k.hosts) (a := HostState.inFlight) (Ne.symm hi)
      rw [← hne]
      exact hin

/-- The sweep is inside an iteration of its loop, with a clock reading of its own. -/
def Pc.reading : Pc → Bool
  | .begin | .head | .returned _ => false
  | _ => true

/-- A host in flight has the time its echo went out in `sent_at`. -/
structure Stamps (s : SweepState) : Prop where
  sent : ∀ i, s.hosts[i]? = some .inFlight →
    ∃ t, (t, .echo i .ok) ∈ s.log ∧ s.sentAt i ≤ t ∧ s.sentAt i ≤ s.clock
  now_le : s.pc.reading = true → s.now ≤ s.clock
  read : s.pc.reading = true → ∀ i, s.hosts[i]? = some .inFlight → s.sentAt i ≤ s.now

/-- A step that writes no send time. -/
theorem Stamps.frame {s s' : SweepState} (h : Stamps s) (hc : Change c s.toCore s'.toCore)
    (hnext : s'.next = s.next) (hsent : s'.sentAt = s.sentAt)
    (hpc : s'.pc.reading = true → s.pc.reading = true ∧ s'.now = s.now) : Stamps s' := by
  obtain ⟨hlog, hclock, hhosts⟩ := hc.frame
  have hin : ∀ i : Nat, s'.hosts[i]? = some .inFlight → s.hosts[i]? = some .inFlight := by
    intro i hi
    rcases hhosts i hi with hold | ⟨-, hnew⟩
    · exact hold
    · omega
  refine ⟨?_, ?_, ?_⟩
  · intro i hi
    obtain ⟨t, hmem, hle, hle'⟩ := h.sent i (hin i hi)
    rw [hsent]
    exact ⟨t, hlog.subset hmem, hle, Int.le_trans hle' hclock⟩
  · intro hread
    obtain ⟨hold, hnow⟩ := hpc hread
    rw [hnow]
    exact Int.le_trans (h.now_le hold) hclock
  · intro hread i hi
    obtain ⟨hold, hnow⟩ := hpc hread
    rw [hnow, hsent]
    exact h.read hold i (hin i hi)

/-- The clock is read at the head of the loop. -/
theorem Stamps.head {s : SweepState} (h : Stamps s) :
    Stamps { s with now := s.clock, pc := .expire } := by
  refine ⟨h.sent, fun _ => Int.le_refl _, ?_⟩
  intro _ i hi
  obtain ⟨t, -, -, hle⟩ := h.sent i hi
  exact hle

theorem Stamps.send {env : SweepEnv} {s : SweepState} (h : Stamps s) (hpc : s.pc = .send) :
    Stamps (s.send c env) := by
  have hread : s.pc.reading = true := by rw [hpc]; rfl
  have hchange := send_change (c := c) env s
  have hstep := send_step (c := c) env s
  generalize s.send c env = s' at hchange hstep
  cases hstep with
  | idle | full => exact h.frame hchange rfl rfl fun _ => ⟨hread, rfl⟩
  | failed =>
    obtain ⟨hlog, hclock, hhosts⟩ := hchange.frame
    refine ⟨?_, fun _ => h.now_le hread, fun _ i hi => h.read hread i (inFlight_of_set hi)⟩
    intro i hi
    obtain ⟨t, hmem, hle⟩ := h.sent i (inFlight_of_set hi)
    exact ⟨t, hlog.subset hmem, hle⟩
  | sent =>
    have hnow := h.now_le hread
    obtain ⟨hlog, hclock, hhosts⟩ := hchange.frame
    refine ⟨?_, fun _ => hnow, ?_⟩
    · intro i hi
      show ∃ t, _ ∧ Function.update s.sentAt s.next s.now i ≤ t ∧
        Function.update s.sentAt s.next s.now i ≤ s.clock
      rw [Function.update_apply]
      split
      · next heq =>
        refine ⟨s.clock, ?_, hnow, hnow⟩
        show _ ∈ s.log ++ [(s.clock, .echo s.next .ok)]
        simp [heq]
      · next hne =>
        obtain ⟨t, hmem, hle⟩ := h.sent i ((hhosts i hi).resolve_right fun hnew => hne hnew.1)
        exact ⟨t, hlog.subset hmem, hle⟩
    · intro _ i hi
      show Function.update s.sentAt s.next s.now i ≤ s.now
      rw [Function.update_apply]
      split
      · exact Int.le_refl _
      · next hne => exact h.read hread i ((hhosts i hi).resolve_right fun hnew => hne hnew.1)

/-! ## The oldest host, from the expiry loop to `poll` -/

/-- The oldest host is in flight, and its wait is not over. -/
structure OldestWaits (c : SweepConfig) (s : SweepState) : Prop where
  lt : s.oldest < s.next
  inFlight : s.hosts[s.oldest]? = some .inFlight
  early : s.now < s.sentAt s.oldest + c.timeoutMs

/-- No echo to the oldest host ever went out. -/
structure OldestUnsent (s : SweepState) : Prop where
  lt : s.oldest < s.next
  unsent : ¬Echoed s.oldest s.log

/-- What is known of the oldest host while echoes are sent. -/
def Batch (c : SweepConfig) (failed : Bool) (s : SweepState) : Prop :=
  failed = false ∧ (s.oldest = s.next ∨ OldestWaits c s) ∨ failed = true ∧ OldestUnsent s

/-- What is known of it at each place of the loop. -/
def Phase (c : SweepConfig) (failed : Bool) (s : SweepState) : Prop :=
  match s.pc with
  | .expire => failed = false
  | .stopCheck => failed = false ∧ (s.oldest = s.next ∨ OldestWaits c s)
  | .send | .endCheck => Batch c failed s
  | .poll wait => Batch c failed s ∧ (OldestWaits c s → 0 ≤ wait ∧ wait ≤ c.timeoutMs)
  | _ => True

theorem not_echoed_append {i : Nat} {log : List (Int × SweepEvent)} {l : List SweepEvent} {t : Int}
    (h : ¬Echoed i log) (hnew : SweepEvent.echo i .ok ∉ l) :
    ¬Echoed i (log ++ l.map fun e => (t, e)) := by
  rintro ⟨t', hmem⟩
  rcases List.mem_append.mp hmem with hold | hmem
  · exact h ⟨t', hold⟩
  · obtain ⟨e, he, heq⟩ := List.mem_map.mp hmem
    cases heq
    exact hnew he

section Steps

variable {s : SweepState} {failed : Bool}

/-- A step that leaves the hosts alone, and only notes something. -/
theorem Batch.note {s' : SweepState} {l : List SweepEvent} {t : Int} (h : Batch c failed s)
    (hcursors : s'.oldest = s.oldest ∧ s'.next = s.next) (hhosts : s'.hosts = s.hosts)
    (htimes : s'.now = s.now ∧ s'.sentAt = s.sentAt)
    (hlog : s'.log = s.log ++ l.map fun e => (t, e)) (hnew : ∀ i, SweepEvent.echo i .ok ∉ l) :
    Batch c failed s' := by
  obtain ⟨holdest, hnext⟩ := hcursors
  obtain ⟨hnow, hsentAt⟩ := htimes
  rcases h with ⟨hf, heq | hw⟩ | ⟨hf, hu⟩
  · refine Or.inl ⟨hf, Or.inl ?_⟩
    rw [holdest, hnext]
    exact heq
  · refine Or.inl ⟨hf, Or.inr ⟨?_, ?_, ?_⟩⟩
    · rw [holdest, hnext]
      exact hw.lt
    · rw [hhosts, holdest]
      exact hw.inFlight
    · rw [hnow, hsentAt, holdest]
      exact hw.early
  · refine Or.inr ⟨hf, ?_, ?_⟩
    · rw [holdest, hnext]
      exact hu.lt
    · rw [holdest, hlog]
      exact not_echoed_append hu.unsent (hnew _)

/-- A send to another host leaves the oldest one waiting. -/
theorem OldestWaits.sendNext {s' : SweepState} {host : HostState} (h : OldestWaits c s)
    (hcursors : s'.oldest = s.oldest ∧ s'.next = s.next + 1)
    (hhosts : s'.hosts = s.hosts.set s.next host)
    (htimes : s'.now = s.now ∧ s'.sentAt s.oldest = s.sentAt s.oldest) : OldestWaits c s' := by
  obtain ⟨holdest, hnext⟩ := hcursors
  have hlt := h.lt
  refine ⟨?_, ?_, ?_⟩
  · omega
  · rw [hhosts, holdest, List.getElem?_set_ne (by omega)]
    exact h.inFlight
  · rw [htimes.1, holdest, htimes.2]
    exact h.early

/-- No send to another host puts an echo to the oldest one out. -/
theorem OldestUnsent.sendNext {s' : SweepState} {l : List SweepEvent} {t : Int}
    (h : OldestUnsent s) (hcursors : s'.oldest = s.oldest ∧ s'.next = s.next + 1)
    (hlog : s'.log = s.log ++ l.map fun e => (t, e))
    (hnew : SweepEvent.echo s.oldest .ok ∉ l) : OldestUnsent s' := by
  obtain ⟨holdest, hnext⟩ := hcursors
  have hlt := h.lt
  refine ⟨by omega, ?_⟩
  rw [holdest, hlog]
  exact not_echoed_append h.unsent hnew

/-- The clock and the network do not touch any of it. -/
theorem Phase.tick (h : Phase c failed s) (ms : Nat) :
    Phase c failed { s with clock := s.clock + ms } := by
  have hwaits : OldestWaits c { s with clock := s.clock + ms } ↔ OldestWaits c s :=
    ⟨fun h => ⟨h.1, h.2, h.3⟩, fun h => ⟨h.1, h.2, h.3⟩⟩
  have hunsent : OldestUnsent { s with clock := s.clock + ms } ↔ OldestUnsent s :=
    ⟨fun h => ⟨h.1, h.2⟩, fun h => ⟨h.1, h.2⟩⟩
  unfold Phase Batch at h ⊢
  simp only [hwaits, hunsent]
  exact h

theorem Phase.arrive (h : Phase c failed s) (sock : Nat) (d : Datagram)
    (queues : Nat → List Datagram) :
    Phase c failed { s with toCore := { s.toCore.note [.arrived sock d] with queues } } := by
  have hwaits : OldestWaits c { s with
      toCore := { s.toCore.note [.arrived sock d] with queues } } ↔ OldestWaits c s :=
    ⟨fun h => ⟨h.1, h.2, h.3⟩, fun h => ⟨h.1, h.2, h.3⟩⟩
  have hbatch : Batch c failed s → Batch c failed { s with
      toCore := { s.toCore.note [.arrived sock d] with queues } } := fun h =>
    h.note (l := [.arrived sock d]) ⟨rfl, rfl⟩ rfl ⟨rfl, rfl⟩ rfl (by simp)
  unfold Phase at h ⊢
  simp only [hwaits]
  split at h
  · exact h
  · exact h
  · exact hbatch h
  · exact hbatch h
  · exact ⟨hbatch h.1, h.2⟩
  · trivial

theorem Phase.expire (hcur : Cursors c s.toCore) (hpc : s.pc = .expire)
    (h : Phase c failed s) : Phase c failed (s.expire c) := by
  have hfailed : failed = false := by
    rw [Phase, hpc] at h
    exact h
  have hle := hcur.oldest_le
  unfold SweepState.expire
  split
  · next hlt =>
    split
    · next hin =>
      split
      · next hearly => exact ⟨hfailed, Or.inr ⟨hlt, hin, hearly⟩⟩
      · simp only [Phase, hpc]
        exact hfailed
    · simp only [Phase, hpc]
      exact hfailed
  · exact ⟨hfailed, Or.inl (by show s.oldest = s.next; omega)⟩

theorem Phase.stopCheck (env : SweepEnv) (hpc : s.pc = .stopCheck) (h : Phase c failed s) :
    Phase c failed (s.stopCheck env) := by
  rw [Phase, hpc] at h
  obtain ⟨hfailed, hold⟩ := h
  refine Or.inl ⟨hfailed, ?_⟩
  unfold SweepState.stopCheck
  simp only []
  rcases hold with heq | ⟨hlt, hin, hearly⟩
  · left
    split <;> exact heq
  · right
    split <;> exact ⟨hlt, hin, hearly⟩

/-- The host that is sent to next has had no echo yet. -/
theorem Sound.not_echoed_next (hsound : Sound c s) (hnext : s.next < s.hosts.length) :
    ¬Echoed s.next s.log := by
  intro hechoed
  have habove := hsound.cursors.above s.next (Nat.le_refl _)
    (by rw [← hsound.cursors.length]; exact hnext)
  rcases hsound.logged.settled s.next hechoed with hin | hin <;> rw [habove] at hin <;> cases hin

/-- **A send decides what is known of the oldest host**, when it is the first one. -/
theorem Phase.send (htimeout : 1 ≤ c.timeoutMs) (env : SweepEnv) (hsound : Sound c s)
    (hpc : s.pc = .send) (h : Phase c failed s) :
    Phase c (SweepState.firstSendFailed c failed s (.run env)) (s.send c env) := by
  have hbatch : Batch c failed s := by
    rw [Phase, hpc] at h
    exact h
  have hnote : SweepState.firstSendFailed c failed s (.run env) =
      (failed || (s.sending c && s.oldest = s.next && s.sendFails env)) := by
    simp only [SweepState.firstSendFailed, hpc]
  have hnext : s.sending c = true → s.next < s.hosts.length := by
    intro hsending
    simp only [SweepState.sending, decide_eq_true_eq] at hsending
    rw [hsound.cursors.length]
    exact hsending.2.1
  rw [hnote]
  have hstep := send_step (c := c) env s
  generalize s.send c env = s' at hstep
  cases hstep with
  | idle hidle =>
    rw [hidle, Bool.false_and, Bool.false_and, Bool.or_false]
    exact hbatch.note (l := []) (t := 0) ⟨rfl, rfl⟩ rfl ⟨rfl, rfl⟩ (List.append_nil _).symm
      (by simp)
  | full since hsending hfails =>
    rw [hfails, Bool.and_false, Bool.or_false]
    exact hbatch.note (l := [.echo s.next .busy]) ⟨rfl, rfl⟩ rfl ⟨rfl, rfl⟩ rfl (by simp)
  | sent hsending hfails =>
    rw [hfails, Bool.and_false, Bool.or_false]
    simp only [Phase, hpc]
    rcases hbatch with ⟨hf, heq | hw⟩ | ⟨hf, hu⟩
    · -- the echo went to the oldest host, just now
      refine Or.inl ⟨hf, Or.inr ⟨?_, ?_, ?_⟩⟩
      · show s.oldest < s.next + 1
        omega
      · show (s.hosts.set s.next .inFlight)[s.oldest]? = some .inFlight
        rw [heq, List.getElem?_set_self (hnext hsending)]
      · show s.now < Function.update s.sentAt s.next s.now s.oldest + c.timeoutMs
        rw [heq, Function.update_self]
        omega
    · have hne := Nat.ne_of_lt hw.lt
      exact Or.inl ⟨hf, Or.inr
        (hw.sendNext ⟨rfl, rfl⟩ rfl ⟨rfl, Function.update_of_ne hne _ _⟩)⟩
    · have hne := Nat.ne_of_lt hu.lt
      exact Or.inr ⟨hf, hu.sendNext (l := [.echo s.next .ok]) ⟨rfl, rfl⟩ rfl (by simpa using hne)⟩
  | failed o hsending hfails ho =>
    rw [hsending, hfails, Bool.true_and, Bool.and_true]
    simp only [Phase, hpc]
    have hlog : s.log ++ [(s.clock, .echo s.next o)] ++ [(s.clock, .pinged s.next false)] =
        s.log ++ [SweepEvent.echo s.next o, .pinged s.next false].map fun e => (s.clock, e) := by
      simp
    have hnew : ∀ i, SweepEvent.echo i .ok ∉ [SweepEvent.echo s.next o, .pinged s.next false] := by
      simp [ho.symm]
    rcases hbatch with ⟨hf, heq | hw⟩ | ⟨hf, hu⟩
    · -- the oldest host is reported, and its slot never written
      rw [hf, heq]
      refine Or.inr ⟨by simp, ?_, ?_⟩
      · show s.oldest < s.next + 1
        omega
      · show ¬Echoed s.oldest
          (s.log ++ [(s.clock, .echo s.next o)] ++ [(s.clock, .pinged s.next false)])
        rw [hlog, heq]
        exact not_echoed_append (hsound.not_echoed_next (hnext hsending)) (hnew _)
    · have hne : decide (s.oldest = s.next) = false := by simpa using Nat.ne_of_lt hw.lt
      rw [hf, hne]
      exact Or.inl ⟨rfl, Or.inr (hw.sendNext ⟨rfl, rfl⟩ rfl ⟨rfl, rfl⟩)⟩
    · rw [hf, Bool.true_or]
      exact Or.inr ⟨rfl, hu.sendNext ⟨rfl, rfl⟩ hlog (hnew _)⟩

/-- The wait, worked out from a time that was written. -/
theorem waitMs_bounds (htimeout : 1 ≤ c.timeoutMs) (hint : c.timeoutMs < 2 ^ 31)
    (hwaits : OldestWaits c s) (hread : s.sentAt s.oldest ≤ s.now) :
    0 ≤ s.waitMs c ∧ s.waitMs c ≤ c.timeoutMs := by
  have hearly := hwaits.early
  have hcast : Int.bmod (s.sentAt s.oldest + c.timeoutMs - s.now) (2 ^ 32) =
      s.sentAt s.oldest + c.timeoutMs - s.now := by
    rw [Int.bmod_eq_of_le] <;> omega
  unfold SweepState.waitMs
  simp only [hcast, if_pos hwaits.lt]
  split <;> omega

theorem Phase.endCheck (htimeout : 1 ≤ c.timeoutMs) (hint : c.timeoutMs < 2 ^ 31)
    (hstamps : Stamps s) (hpc : s.pc = .endCheck) (h : Phase c failed s) :
    Phase c failed (s.endCheck c) := by
  have hbatch : Batch c failed s := by
    rw [Phase, hpc] at h
    exact h
  unfold SweepState.endCheck
  split
  · trivial
  · refine ⟨?_, ?_⟩
    · rcases hbatch with ⟨hf, heq | hw⟩ | ⟨hf, hu⟩
      · exact Or.inl ⟨hf, Or.inl heq⟩
      · exact Or.inl ⟨hf, Or.inr ⟨hw.1, hw.2, hw.3⟩⟩
      · exact Or.inr ⟨hf, hu.1, hu.2⟩
    · intro hwaits
      have hwaits' : OldestWaits c s := ⟨hwaits.1, hwaits.2, hwaits.3⟩
      have hread : s.pc.reading = true := by rw [hpc]; rfl
      exact waitMs_bounds htimeout hint hwaits' (hstamps.read hread _ hwaits.inFlight)

end Steps

/-! ## Whole runs -/

/-- Outside of the head of the loop and the send `while`, the sweep keeps its clock reading and
its send times. -/
theorem run_keeps {s s' : SweepState} {env : SweepEnv} (hs : s.run c env = some s')
    (hhead : s.pc ≠ .head) (hsend : s.pc ≠ .send) :
    s'.next = s.next ∧ s'.sentAt = s.sentAt ∧
      (s'.pc.reading = true → s.pc.reading = true ∧ s'.now = s.now) := by
  have hmoves := run_moves hs
  obtain ⟨hnext, hsent⟩ := hmoves.unsent hsend
  refine ⟨hnext, hsent, fun hread => ⟨?_, hmoves.now hhead⟩⟩
  have hleads := hmoves.leads
  cases hpc : s.pc with
  | head => exact absurd hpc hhead
  | begin | returned _ =>
    -- neither leads into an iteration
    rw [hpc] at hleads
    generalize s'.pc = pc at hread hleads
    cases pc <;> simp_all [Pc.leadsTo, Pc.reading]
  | expire | stopCheck | send | endCheck | poll _ | drain _ _ => rfl

theorem Stamps.run {s s' : SweepState} {env : SweepEnv} (h : Stamps s)
    (hs : s.run c env = some s') : Stamps s' := by
  by_cases hhead : s.pc = .head
  · simp only [SweepState.run, hhead, Option.some.injEq] at hs
    rw [← hs]
    exact h.head
  · by_cases hsend : s.pc = .send
    · simp only [SweepState.run, hsend, Option.some.injEq] at hs
      rw [← hs]
      exact h.send hsend
    · obtain ⟨hnext, hsent, hpc⟩ := run_keeps hs hhead hsend
      exact h.frame (run_change hs) hnext hsent hpc

/-- Places where nothing is known of the oldest host. -/
def Pc.idle : Pc → Bool
  | .begin | .head | .drain _ _ | .returned _ => true
  | _ => false

theorem Phase.of_idle {s : SweepState} (failed : Bool) (h : s.pc.idle = true) :
    Phase c failed s := by
  unfold Phase
  generalize s.pc = pc at h
  cases pc <;> trivial

theorem Phase.run (htimeout : 1 ≤ c.timeoutMs) (hint : c.timeoutMs < 2 ^ 31) {s s' : SweepState}
    {failed : Bool} {env : SweepEnv} (hsound : Sound c s) (hstamps : Stamps s)
    (h : Phase c failed s) (hs : s.run c env = some s') :
    Phase c (SweepState.firstSendFailed c failed s (.run env)) s' := by
  have hsame : s.pc ≠ .head → s.pc ≠ .send →
      SweepState.firstSendFailed c failed s (.run env) = failed := by
    intro hhead hsend
    simp only [SweepState.firstSendFailed]
  have hleads := (run_moves hs).leads
  cases hpc : s.pc with
  | begin | poll _ | drain _ _ =>
    -- these lead to places where nothing is known
    refine Phase.of_idle _ ?_
    rw [hpc] at hleads
    generalize s'.pc = pc at hleads
    cases pc <;> simp_all [Pc.leadsTo, Pc.idle]
  | head =>
    simp only [SweepState.run, hpc, Option.some.injEq] at hs
    rw [← hs]
    show SweepState.firstSendFailed c failed s (.run env) = false
    simp only [SweepState.firstSendFailed, hpc]
  | expire =>
    simp only [SweepState.run, hpc, Option.some.injEq] at hs
    rw [← hs, hsame (by simp [hpc]) (by simp [hpc])]
    exact h.expire hsound.cursors hpc
  | stopCheck =>
    simp only [SweepState.run, hpc, Option.some.injEq] at hs
    rw [← hs, hsame (by simp [hpc]) (by simp [hpc])]
    exact h.stopCheck env hpc
  | send =>
    simp only [SweepState.run, hpc, Option.some.injEq] at hs
    rw [← hs]
    exact h.send htimeout env hsound hpc
  | endCheck =>
    simp only [SweepState.run, hpc, Option.some.injEq] at hs
    rw [← hs, hsame (by simp [hpc]) (by simp [hpc])]
    exact h.endCheck htimeout hint hstamps hpc
  | returned r => simp [SweepState.run, hpc] at hs

/-- The invariant of a watched sweep. -/
structure Timed (c : SweepConfig) (p : SweepState × Bool) : Prop where
  stamps : Stamps p.1
  phase : Phase c p.2 p.1

theorem watchedSweep_timed (htimeout : 1 ≤ c.timeoutMs) (hint : c.timeoutMs < 2 ^ 31)
    {p : SweepState × Bool} (h : (watchedSweep c).Reachable p) : Timed c p := by
  refine h.invariant ?_ ?_
  · rintro ⟨s, failed⟩ ⟨⟨clock, rfl⟩, -⟩
    refine ⟨⟨?_, by simp [SweepState.init, Pc.reading], by simp [SweepState.init, Pc.reading]⟩,
      Phase.of_idle _ rfl⟩
    intro i hin
    simpa [SweepState.init] using List.mem_of_getElem? hin
  · rintro ⟨s, failed⟩ l ⟨s', failed'⟩ hreach ⟨hstamps, hphase⟩ hs
    obtain ⟨hstep, hnote⟩ := Lts.watch_step hs
    simp only at hstep hnote
    have hchange := step_change hstep
    cases l with
    | tick ms =>
      cases hstep
      exact ⟨hstamps.frame hchange rfl rfl fun h => ⟨h, rfl⟩, by rw [hnote]; exact hphase.tick ms⟩
    | arrive k d =>
      simp only [sweep, SweepState.step] at hstep
      split at hstep
      · cases hstep
        refine ⟨hstamps.frame hchange rfl rfl fun h => ⟨h, rfl⟩, ?_⟩
        rw [hnote]
        exact hphase.arrive k d _
      · simp at hstep
    | run env =>
      have hsound := sweep_sound hreach.unwatch
      refine ⟨hstamps.run hstep, ?_⟩
      rw [hnote]
      exact hphase.run htimeout hint hsound hstamps hstep

/--
**A sweep's sleep is derived from a real send time exactly when the first send of the iteration
did not fail**: for every run, every clock, and every wait for the oldest host.

The timeout is an `int`, and positive as its callers pass it.
-/
theorem sendTime_iff (c : SweepConfig) (htimeout : 1 ≤ c.timeoutMs) (hint : c.timeoutMs < 2 ^ 31)
    {s : SweepState} {failed : Bool} (h : (watchedSweep c).Reachable (s, failed)) {wait : Int}
    (hpoll : s.pc = .poll wait) (hlt : s.oldest < s.next) :
    RealSendTime c s wait ↔ failed = false := by
  obtain ⟨hstamps, hphase⟩ := watchedSweep_timed htimeout hint h
  simp only [Phase, hpoll] at hphase
  obtain ⟨hbatch, hbounds⟩ := hphase
  constructor
  · intro hreal
    rcases hbatch with ⟨hf, -⟩ | ⟨-, hunsent⟩
    · exact hf
    · obtain ⟨t, hmem, -⟩ := hreal.sent
      exact absurd ⟨t, hmem⟩ hunsent.unsent
  · intro hf
    rcases hbatch with ⟨-, heq | hwaits⟩ | ⟨hf', -⟩
    · omega
    · obtain ⟨t, hmem, hle, -⟩ := hstamps.sent _ hwaits.inFlight
      exact ⟨⟨t, hmem, hle⟩, (hbounds hwaits).1, (hbounds hwaits).2⟩
    · rw [hf] at hf'
      cases hf'

/-- Where a sweep sleeps, for how long, and its cursors. -/
def SweepState.sleep? (s : SweepState) : Option (Int × Nat × Nat) :=
  match s.pc with
  | .poll wait => some (wait, s.oldest, s.next)
  | _ => none

theorem SweepState.of_sleep? {s : SweepState} {wait : Int} {oldest next : Nat}
    (h : s.sleep? = some (wait, oldest, next)) :
    s.pc = .poll wait ∧ s.oldest = oldest ∧ s.next = next := by
  unfold SweepState.sleep? at h
  split at h
  · next hpc =>
    cases h
    exact ⟨hpc, rfl, rfl⟩
  · cases h

/-- Two hosts, and what `malloc` left in their slots of `sent_at`. -/
def twoHosts : SweepConfig where
  ips := [(10, 0, 0, 1), (10, 0, 0, 2)]
  timeoutMs := 1000
  maxInFlightArg := 64
  ident := 7
  token := 5
  linux := true
  garbage := fun _ => 5000000
  count_lt := by decide
  max_lt := by decide

/-- Both echoes go out at once, and the sweep sleeps until the first host's wait ends. -/
theorem sendTime_both_sent :
    ∃ s, (watchedSweep twoHosts).Reachable (s, false) ∧ s.pc = .poll 1000 ∧
      RealSendTime twoHosts s 1000 := by
  let labels : List SweepLabel := List.replicate 8 (.run {})
  have hend : ((watchedSweep twoHosts).exec (SweepState.init twoHosts 0, false) labels).map
      (fun p => (p.1.sleep?, p.2)) = some (some (1000, 0, 2), false) := by decide +kernel
  obtain ⟨⟨s, failed⟩, hexec, hlast⟩ := Option.map_eq_some_iff.mp hend
  obtain ⟨hsleep, rfl⟩ := Prod.mk.inj hlast
  obtain ⟨hpoll, holdest, hnext⟩ := SweepState.of_sleep? hsleep
  have hrun : (watchedSweep twoHosts).Reachable (s, false) :=
    ⟨_, labels, ⟨⟨0, rfl⟩, rfl⟩, hexec⟩
  refine ⟨s, hrun, hpoll, ?_⟩
  have hlt : s.oldest < s.next := by
    rw [holdest, hnext]
    decide
  exact (sendTime_iff twoHosts (by decide) (by decide) hrun hpoll hlt).mpr rfl

/-- The network refuses the echo to the first host, and the second one goes out. The sweep then
sleeps for 83 minutes, on what `malloc` left in the first host's slot. -/
theorem failed_send_sleeps_on_garbage :
    ∃ s, (sweep twoHosts).Reachable s ∧ s.pc = .poll 5001000 ∧ s.oldest < s.next ∧
      ¬RealSendTime twoHosts s 5001000 := by
  let go : SweepLabel := .run {}
  let labels : List SweepLabel :=
    [go, go, go, go, .run { sends := fun _ => .failed }, go, go, go]
  have hend : ((sweep twoHosts).exec (SweepState.init twoHosts 0) labels).map
      SweepState.sleep? = some (some (5001000, 0, 2)) := by decide +kernel
  obtain ⟨s, hexec, hsleep⟩ := Option.map_eq_some_iff.mp hend
  obtain ⟨hpoll, holdest, hnext⟩ := SweepState.of_sleep? hsleep
  have hlt : s.oldest < s.next := by
    rw [holdest, hnext]
    decide
  refine ⟨s, ⟨_, labels, ⟨0, rfl⟩, hexec⟩, hpoll, hlt, ?_⟩
  intro hreal
  have := hreal.le_timeout
  simp [twoHosts] at this

end NetScanner.Icmp
