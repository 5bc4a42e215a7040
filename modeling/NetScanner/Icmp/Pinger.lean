import NetScanner.Icmp.WindowsOnce
import Mathlib.Data.List.Nodup

/-!
# The in-process sweep, as its caller sees it

`icmpSweep` of `src/core/scanner.zig` calls `icmp_ping_sweep`, which is one of two programs
(`sweep` on Linux and macOS, `winSweep` on Windows). What the caller relies on is the same of
both, and a `Pinger` carries it: a host is reported at most once, a sweep that ends without a
stop has reported each, and one that could not run has reported none.
-/

namespace NetScanner.Icmp

open Infra

/-- A sweep over `count` hosts with an observer. -/
structure Pinger (count : Nat) where
  State : Type
  Label : Type
  lts : Lts State Label
  /-- The sweep at its call, and the clock then. -/
  call : Int → State
  /-- The calls of `observer.pinged` so far. -/
  reports : State → List (Nat × Bool)
  /-- Whether `observer.stop_requested` has said so. -/
  stopped : State → Bool
  result : State → Option SweepResult
  call_init : ∀ clock, lts.init (call clock)
  call_reports : ∀ clock, reports (call clock) = []
  call_stopped : ∀ clock, stopped (call clock) = false
  grows : ∀ {s l s'}, lts.step s l = some s' → reports s <+: reports s'
  nodup : ∀ {s}, lts.Reachable s → ((reports s).map Prod.fst).Nodup
  lt : ∀ {s}, lts.Reachable s → ∀ i ∈ (reports s).map Prod.fst, i < count
  complete : ∀ {s}, lts.Reachable s → result s = some .done → stopped s = false →
    ∀ i < count, i ∈ (reports s).map Prod.fst
  silent : ∀ {s r}, lts.Reachable s → result s = some r → r ≠ .done → reports s = []

/-- What a sweep at this place has returned. -/
def Pc.result : Pc → Option SweepResult
  | .returned r => some r
  | _ => none

theorem Pc.of_result {pc : Pc} {r : SweepResult} (h : pc.result = some r) : pc = .returned r := by
  cases pc <;> simp_all [Pc.result]

@[inherit_doc Pc.result]
def WinPc.result : WinPc → Option SweepResult
  | .returned r => some r
  | _ => none

theorem WinPc.of_result {pc : WinPc} {r : SweepResult} (h : pc.result = some r) :
    pc = .returned r := by
  cases pc <;> simp_all [WinPc.result]

/-! ## Reports in a log -/

section Reports

variable {Event : Type} {pinged? : Event → Option (Nat × Bool)} {i : Nat} {isPing : Event → Bool}

/-- The calls of `pinged` in the log of a sweep. -/
def reports (pinged? : Event → Option (Nat × Bool)) (log : List (Int × Event)) :
    List (Nat × Bool) :=
  log.filterMap fun e => pinged? e.2

/-- A host is reported as often as there are events that report it. -/
theorem count_reports (hping : ∀ e, isPing e = decide ((pinged? e).map Prod.fst = some i))
    (log : List (Int × Event)) :
    ((reports pinged? log).map Prod.fst).count i = log.countP fun e => isPing e.2 := by
  induction log with
  | nil => rfl
  | cons e log ih =>
    rw [List.countP_cons, ← ih, hping]
    cases hevent : pinged? e.2 with
    | none => simp [reports, hevent]
    | some report => simp [reports, hevent, List.count_cons]

end Reports

/-! ## Linux and macOS -/

def SweepEvent.pinged? : SweepEvent → Option (Nat × Bool)
  | .pinged i answered => some (i, answered)
  | _ => none

def sweepReports (log : List (Int × SweepEvent)) : List (Nat × Bool) :=
  reports SweepEvent.pinged? log

theorem count_sweepReports (i : Nat) (log : List (Int × SweepEvent)) :
    ((sweepReports log).map Prod.fst).count i = pings i log :=
  count_reports (fun e => by cases e <;> simp [isPing, SweepEvent.pinged?]) log

theorem mem_sweepReports_iff {i : Nat} {log : List (Int × SweepEvent)} :
    i ∈ (sweepReports log).map Prod.fst ↔ 0 < pings i log := by
  rw [← count_sweepReports, List.count_pos_iff]

theorem Pc.not_leadsTo_begin (pc : Pc) : pc.leadsTo .begin = false := by
  cases pc <;> rfl

/-- A sweep that has not begun, or could not, has got to no host. -/
theorem sweep_unbegun {c : SweepConfig} {s : SweepState} (h : (sweep c).Reachable s) :
    (s.pc = .begin → s.next = 0) ∧ ∀ r, s.pc = .returned r → r ≠ .done → s.next = 0 := by
  refine h.invariant (I := fun s => (s.pc = .begin → s.next = 0) ∧
    ∀ r, s.pc = .returned r → r ≠ .done → s.next = 0) ?_ ?_
  · rintro s ⟨clock, rfl⟩
    exact ⟨fun _ => rfl, by simp [SweepState.init]⟩
  · rintro s l s' _ ⟨hbegin, hend⟩ hs
    cases l with
    | tick ms =>
      cases hs
      exact ⟨hbegin, hend⟩
    | arrive k d =>
      simp only [sweep, SweepState.step] at hs
      split at hs
      · cases hs
        exact ⟨hbegin, hend⟩
      · cases hs
    | run env =>
      have hmoves := run_moves hs
      constructor
      · intro hpc
        have hleads := hmoves.leads
        rw [hpc, Pc.not_leadsTo_begin] at hleads
        cases hleads
      · intro r hpc hr
        have hleads := hmoves.leads
        rw [hpc] at hleads
        rcases Pc.leadsTo_returned hleads with hfrom | hfrom
        · have hnext := (hmoves.unsent (by rw [hfrom]; simp)).1
          rw [hnext]
          exact hbegin hfrom
        · -- the end of an iteration returns nothing else
          have hs : s.run c env = some s' := hs
          simp only [SweepState.run, hfrom, Option.some.injEq] at hs
          subst hs
          unfold SweepState.endCheck at hpc
          split at hpc
          · cases hpc
            exact absurd rfl hr
          · cases hpc

section Posix

variable {c : SweepConfig}

theorem sweepReports_nodup {s : SweepState} (h : (sweep c).Reachable s) :
    ((sweepReports s.log).map Prod.fst).Nodup := by
  refine List.nodup_iff_count_le_one.mpr fun i => ?_
  rw [count_sweepReports, (sweep_sound h).logged.pinged]
  split <;> omega

theorem sweepReports_lt {s : SweepState} (h : (sweep c).Reachable s) (i : Nat)
    (hi : i ∈ (sweepReports s.log).map Prod.fst) : i < c.count := by
  rw [mem_sweepReports_iff, (sweep_sound h).logged.pinged] at hi
  split at hi
  · next hrep =>
    obtain ⟨hlt, _⟩ := List.getElem?_eq_some_iff.mp hrep
    rw [(sweep_sound h).cursors.length] at hlt
    exact hlt
  · omega

/-- Without a stop, a sweep that is done has reported every host. -/
theorem sweepReports_complete {s : SweepState} (h : (sweep c).Reachable s)
    (hdone : s.pc.result = some .done) (hstop : s.stopped = false) (i : Nat) (hi : i < c.count) :
    i ∈ (sweepReports s.log).map Prod.fst := by
  obtain ⟨hcur, hlog, hended⟩ := sweep_sound h
  obtain ⟨hzero, hall⟩ := hended (Pc.of_result hdone)
  have hnext : s.next = c.count := by
    rcases hall with hs | hn
    · rw [hstop] at hs
      cases hs
    · exact hn
  have hlen : i < s.hosts.length := by
    rw [hcur.length]
    exact hi
  have hbegun := hcur.begun i (by rw [hnext]; exact hi)
  have hcount : s.hosts.count .inFlight = 0 := by rw [← hcur.inFlight, hzero]
  rw [mem_sweepReports_iff, hlog.pinged]
  rw [List.getElem?_eq_getElem hlen] at hbegun ⊢
  cases hstate : s.hosts[i] with
  | waiting => simp [hstate] at hbegun
  | inFlight =>
    have hmem : HostState.inFlight ∈ s.hosts := hstate ▸ List.getElem_mem hlen
    exact absurd hmem (List.count_eq_zero.mp hcount)
  | reported => simp

/-- A sweep that could not be made has reported nothing. -/
theorem sweepReports_silent {s : SweepState} {r : SweepResult} (h : (sweep c).Reachable s)
    (hr : s.pc.result = some r) (hne : r ≠ .done) : sweepReports s.log = [] := by
  have hnext := (sweep_unbegun h).2 r (Pc.of_result hr) hne
  obtain ⟨hcur, hlog, _⟩ := sweep_sound h
  show sweepReports s.log = []
  have hnone : ∀ i, i ∉ (sweepReports s.log).map Prod.fst := by
    intro i hi
    rw [mem_sweepReports_iff, hlog.pinged] at hi
    split at hi
    · next hrep =>
      obtain ⟨hlt, _⟩ := List.getElem?_eq_some_iff.mp hrep
      rw [hcur.length] at hlt
      rw [hcur.above i (by omega) hlt] at hrep
      cases hrep
    · omega
  exact List.map_eq_nil_iff.mp (List.eq_nil_iff_forall_not_mem.mpr hnone)

end Posix

def posixPinger (c : SweepConfig) : Pinger c.count where
  State := SweepState
  Label := SweepLabel
  lts := sweep c
  call := SweepState.init c
  reports s := sweepReports s.log
  stopped s := s.stopped
  result s := s.pc.result
  call_init clock := ⟨clock, rfl⟩
  call_reports _ := rfl
  call_stopped _ := rfl
  grows h := (step_change h).log_grows.filterMap _
  nodup := sweepReports_nodup
  lt := sweepReports_lt
  complete := sweepReports_complete
  silent := sweepReports_silent

/-! ## Windows -/

def WinEvent.pinged? : WinEvent → Option (Nat × Bool)
  | .pinged i answered => some (i, answered)
  | _ => none

def winReports (log : List (Int × WinEvent)) : List (Nat × Bool) := reports WinEvent.pinged? log

theorem count_winReports (i : Nat) (log : List (Int × WinEvent)) :
    ((winReports log).map Prod.fst).count i = winPings i log := by
  have hping (e : WinEvent) : (match e with
      | .pinged j _ => j == i
      | _ => false) = decide ((WinEvent.pinged? e).map Prod.fst = some i) := by
    rw [Bool.eq_iff_iff]
    cases e <;> simp [WinEvent.pinged?]
  exact count_reports hping log

theorem mem_winReports_iff {i : Nat} {log : List (Int × WinEvent)} :
    i ∈ (winReports log).map Prod.fst ↔ 0 < winPings i log := by
  rw [← count_winReports, List.count_pos_iff]

section Windows

variable {c : WinConfig}

theorem WinSweep.send_log_grows (env : WinEnv) (s : WinSweep) : s.log <+: (s.send c env).log := by
  unfold WinSweep.send
  split
  · exact List.prefix_rfl
  · split
    · split
      · exact List.prefix_append _ _
      · exact ⟨_, (List.append_assoc _ _ _).symm.trans (List.append_assoc _ _ _).symm⟩
      · exact ⟨_, (List.append_assoc _ _ _).symm.trans (List.append_assoc _ _ _).symm⟩
    · exact List.prefix_rfl

theorem winSweep_log_grows {s s' : WinSweep} {l : WinLabel} (h : (winSweep c).step s l = some s') :
    s.log <+: s'.log := by
  cases l with
  | tick ms =>
    cases h
    exact List.prefix_rfl
  | complete k reply =>
    have h : s.complete c k reply = some s' := h
    unfold WinSweep.complete at h
    split at h
    · cases h
      exact ⟨_, (List.append_assoc _ _ _).symm⟩
    · cases h
  | run env =>
    have h : s.run c env = some s' := h
    unfold WinSweep.run at h
    split at h
    · cases h
      unfold WinSweep.begin
      split
      · exact List.prefix_rfl
      · split
        · exact List.prefix_rfl
        · split <;> exact List.prefix_rfl
    · cases h
      unfold WinSweep.stopCheck
      split
      · exact List.prefix_append _ _
      · exact List.prefix_rfl
    · cases h
      exact List.prefix_rfl
    · cases h
      exact WinSweep.send_log_grows env s
    · cases h
      unfold WinSweep.endCheck
      split
      · exact List.prefix_rfl
      · split <;> exact List.prefix_rfl
    · cases h
      exact List.prefix_rfl
    · cases h

def winPinger (c : WinConfig) : Pinger c.count where
  State := WinSweep
  Label := WinLabel
  lts := winSweep c
  call := WinSweep.init c
  reports s := winReports s.log
  stopped s := s.stopped
  result s := s.pc.result
  call_init clock := ⟨clock, rfl⟩
  call_reports _ := rfl
  call_stopped _ := rfl
  grows h := (winSweep_log_grows h).filterMap _
  nodup {s} h := by
    refine List.nodup_iff_count_le_one.mpr fun i => ?_
    rw [count_winReports]
    rcases win_sweep_sound h with hs | hs
    · rw [hs.log]
      exact Nat.zero_le _
    · rw [hs.lent.pinged]
      split <;> omega
  lt {s} h i hi := by
    rw [mem_winReports_iff] at hi
    rcases win_sweep_sound h with hs | hs
    · rw [hs.log] at hi
      exact absurd hi (Nat.lt_irrefl 0)
    · rw [hs.lent.pinged] at hi
      have hnext := hs.lent.next_le
      split at hi <;> omega
  complete {s} h hdone hstop i hi := by
    have hpc := WinPc.of_result hdone
    rw [mem_winReports_iff]
    rcases win_sweep_sound h with hs | hs
    · rcases hs.pc with hbegin | ⟨r, hr, hcount⟩
      · rw [hpc] at hbegin
        cases hbegin
      · rw [hpc] at hr
        cases hr
        have hcount := hcount rfl
        omega
    · obtain ⟨_, hnone, hall⟩ := hs.ended _ hpc
      have hnext : s.next = c.count := by
        rcases hall with hs | hn
        · rw [hstop] at hs
          cases hs
        · exact hn
      rw [hs.lent.pinged, if_pos ⟨by omega, by simp [WinSweep.out, hnone]⟩]
      exact Nat.one_pos
  silent {s r} h hr hne := by
    rcases win_sweep_sound h with hs | hs
    · show winReports s.log = []
      rw [hs.log]
      rfl
    · exact absurd (hs.ended r (WinPc.of_result hr)).1 hne

end Windows

end NetScanner.Icmp
