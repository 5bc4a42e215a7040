import NetScanner.Ports.Exact
import NetScanner.Infra.Lts

/-!
# A port scan from its first call to its last

The three passes of `scanPorts` as one transition system: `connects.run` asks for ports and
reports verdicts, in any order, and when a pass has run dry and nothing is out, `scanPorts` goes
on to the next one (`turn`). A scan that fails stops wherever it is.

`Passes.reachable` says that the passes of `scanPorts`, and so the runs of the engine behind them
(`Passes.of_engine`), are runs of this system, and `Serving.reachable` says it of every moment of
one.
-/

namespace NetScanner.Ports

open Infra Connects

/-- A scan under way. -/
structure Scanning where
  scan : PortScan
  /-- The probes handed out and not reported. -/
  out : Multiset PortProbe := 0
  /-- The pass has no more ports. -/
  dry : Bool := false
  ended : Bool := false

inductive ScanLabel where
  | next
  | report (probe : PortProbe) (outcome : Outcome) (elapsedUs : Nat)
  /-- `connects.run` has returned, and `scanPorts` goes on. -/
  | turn

namespace Scanning

variable (t : PortTable)

/-- What `scanPorts` does between the passes. -/
def turn (m : Scanning) : Scanning :=
  match m.scan.pass with
  | .first => { scan := m.scan.second }
  | .retry =>
    if m.scan.needsThirdPass.1 then { scan := m.scan.third }
    else { m with scan := m.scan.needsThirdPass.2, ended := true }
  | .third => { m with ended := true }

def step (m : Scanning) : ScanLabel → Option Scanning
  | .next =>
    if m.ended then none
    else
      let (job, scan) := m.scan.next t
      some { m with
        scan
        out := match job with
          | none => m.out
          | some probe => probe ::ₘ m.out
        dry := m.dry || job.isNone }
  | .report probe outcome elapsedUs =>
    if probe ∈ m.out then
      some { m with
        scan := m.scan.done probe outcome elapsedUs
        out := m.out.erase probe }
    else none
  | .turn => if m.ended = false ∧ m.out = 0 ∧ m.dry = true then some m.turn else none

variable {t} {m m' : Scanning}

/-! ## What a step does -/

theorem step_next (h : m.step t .next = some m') :
    m.ended = false ∧
      ((∃ s', m.scan.next t = (none, s') ∧ m' = { m with scan := s', dry := true }) ∨
        ∃ s' probe, m.scan.next t = (some probe, s') ∧
          m' = { m with scan := s', out := probe ::ₘ m.out }) := by
  simp only [step] at h
  split at h
  · simp at h
  · next hended =>
    refine ⟨by simpa using hended, ?_⟩
    obtain ⟨job, s', hnext⟩ : ∃ job s', m.scan.next t = (job, s') := ⟨_, _, rfl⟩
    rw [hnext] at h
    have hm' := (Option.some.inj h).symm
    cases job with
    | none => exact Or.inl ⟨s', hnext, by simpa using hm'⟩
    | some probe => exact Or.inr ⟨s', probe, hnext, by simpa using hm'⟩

theorem step_report {probe : PortProbe} {outcome : Outcome} {elapsedUs : Nat}
    (h : m.step t (.report probe outcome elapsedUs) = some m') :
    ∃ out, m.out = probe ::ₘ out ∧
      m' = { m with scan := m.scan.done probe outcome elapsedUs, out := out } := by
  simp only [step] at h
  split at h
  · next hmem =>
    exact ⟨m.out.erase probe, (Multiset.cons_erase hmem).symm, (Option.some.inj h).symm⟩
  · simp at h

theorem step_turn (h : m.step t .turn = some m') :
    (m.ended = false ∧ m.out = 0 ∧ m.dry = true) ∧
      ((m.scan.pass = .first ∧ m' = { scan := m.scan.second }) ∨
        (m.scan.pass = .retry ∧ m' = { scan := m.scan.third }) ∨
        (m.scan.pass = .retry ∧ m' = { m with scan := m.scan.needsThirdPass.2, ended := true }) ∨
        (m.scan.pass = .third ∧ m' = { m with ended := true })) := by
  simp only [step] at h
  split at h
  · next hend =>
    refine ⟨hend, ?_⟩
    have hm' := (Option.some.inj h).symm
    unfold turn at hm'
    split at hm'
    · next hpass => exact Or.inl ⟨hpass, hm'⟩
    · next hpass =>
      split at hm'
      · exact Or.inr (Or.inl ⟨hpass, hm'⟩)
      · exact Or.inr (Or.inr (Or.inl ⟨hpass, hm'⟩))
    · next hpass => exact Or.inr (Or.inr (Or.inr ⟨hpass, hm'⟩))
  · simp at h

end Scanning

/-- A scan that begins in `s₀`. -/
def scanning (t : PortTable) (s₀ : PortScan) : Lts Scanning ScanLabel where
  init m := m = { scan := s₀ }
  step m l := m.step t l

/-! ## The pass is `scanPorts`'s to change -/

namespace PortScan

/-- Handing out a port moves cursors only. -/
theorem next_keeps {t : PortTable} {s s' : PortScan} {job : Option PortProbe}
    (h : s.next t = (job, s')) :
    s'.pass = s.pass ∧ s'.run = s.run ∧ s'.halfUnits = s.halfUnits ∧ s'.tracker = s.tracker ∧
      s'.events = s.events := by
  cases hpass : s.pass with
  | first =>
    cases job with
    | none =>
      obtain ⟨nr, np, hs', _⟩ := next_first_none hpass h
      rw [hs']
      exact ⟨hpass, rfl, rfl, rfl, rfl⟩
    | some job =>
      obtain ⟨nr, np, port, hs', _⟩ := next_first_some hpass h
      rw [hs']
      exact ⟨hpass, rfl, rfl, rfl, rfl⟩
  | retry =>
    cases job with
    | none =>
      rw [(next_retry_none hpass h).1]
      exact ⟨hpass, rfl, rfl, rfl, rfl⟩
    | some job =>
      obtain ⟨deferred, _, hs', _⟩ := next_retry_some hpass h
      rw [hs']
      exact ⟨hpass, rfl, rfl, rfl, rfl⟩
  | third =>
    cases job with
    | none =>
      rw [(next_third_none hpass h).1]
      exact ⟨hpass, rfl, rfl, rfl, rfl⟩
    | some job =>
      obtain ⟨deferred, _, _, hs', _⟩ := next_third_some hpass h
      rw [hs']
      exact ⟨hpass, rfl, rfl, rfl, rfl⟩

theorem done_pass (s : PortScan) (p : PortProbe) (o : Outcome) (e : Nat) :
    (s.done p o e).pass = s.pass := by
  have hadvance : ∀ (s : PortScan) n, (s.advanceHalves n).pass = s.pass := by
    intro s n
    obtain ⟨tr, ev, hu, h⟩ := s.advanceHalves_frame n
    rw [h]
  have hrecord : ∀ (s : PortScan) port, (s.recordOpen port).pass = s.pass := by
    intro s port
    obtain ⟨tr, ev, h⟩ := s.recordOpen_frame port
    rw [h]
  have hsettle : ((s.learn o e).settleRetry p o).pass = s.pass :=
    ((s.learn o e).settleRetry_pass p o).trans (s.learn_pass o e)
  unfold done
  simp only []
  split
  · split
    · rw [hrecord, hsettle]
    · exact hsettle
  · cases o with
    | «open» => rw [hadvance, hrecord, hsettle]
    | refused => rw [hadvance, hsettle]
    | filtered =>
      simp only []
      split
      · rw [hadvance]
        exact hsettle
      · rw [hadvance, hsettle]

end PortScan

section Reach

variable {t : PortTable} {s₀ : PortScan}

/-- **The calls of a pass are steps of the scan.** -/
theorem Serving.reachable {s s' : PortScan} {calls : List (Call PortProbe)}
    {out : Multiset PortProbe} (h : Serving (source t) s calls s' out)
    (hstart : (scanning t s₀).Reachable { scan := s }) :
    (scanning t s₀).Reachable
      { scan := s', out, dry := decide (Call.next none ∈ calls) } := by
  induction h with
  | start => simpa using hstart
  | @hand calls s s' out job _ hnext ih =>
    refine ih.step (l := .next) ?_
    have hnext : s.next t = (some job, s') := hnext
    simp [scanning, Scanning.step, hnext]
  | @dry calls s s' out _ hnext ih =>
    refine ih.step (l := .next) ?_
    have hnext : s.next t = (none, s') := hnext
    simp [scanning, Scanning.step, hnext]
  | @report calls s out job o e _ ih =>
    refine ih.step (l := .report job o e) ?_
    simp [scanning, Scanning.step, source]

theorem Pass.reachable {s s' : PortScan} {calls : List (Call PortProbe)}
    (h : Pass (source t) s calls s') (hstart : (scanning t s₀).Reachable { scan := s }) :
    (scanning t s₀).Reachable { scan := s', dry := true } := by
  have hserved := Serving.reachable h.served hstart
  rwa [decide_eq_true h.dry] at hserved

theorem Serving.pass {s s' : PortScan} {calls : List (Call PortProbe)}
    {out : Multiset PortProbe} (h : Serving (source t) s calls s' out) : s'.pass = s.pass := by
  induction h with
  | start => rfl
  | hand _ hnext ih => exact (PortScan.next_keeps hnext).1.trans ih
  | dry _ hnext ih => exact (PortScan.next_keeps hnext).1.trans ih
  | report o e _ ih => exact (PortScan.done_pass _ _ o e).trans ih

/-- **The passes of `scanPorts` are a run of this system.** -/
theorem Passes.reachable {s₁ s₂ s₃ : PortScan} {calls₁ calls₂ calls₃ : List (Call PortProbe)}
    (hpass : s₀.pass = .first) (h : Passes t s₀ s₁ s₂ s₃ calls₁ calls₂ calls₃) :
    (scanning t s₀).Reachable { scan := s₃, dry := true, ended := true } := by
  have hpass₁ : s₁.pass = .first := (Serving.pass h.first.served).trans hpass
  have hpass₂ : s₂.pass = .retry := Serving.pass h.retry.served
  have hfirst : (scanning t s₀).Reachable { scan := s₁, dry := true } :=
    Pass.reachable h.first (Lts.Reachable.of_init rfl)
  have hsecond : (scanning t s₀).Reachable { scan := s₁.second } :=
    hfirst.step (l := .turn) (by simp [scanning, Scanning.step, Scanning.turn, hpass₁])
  have hretried : (scanning t s₀).Reachable { scan := s₂, dry := true } :=
    Pass.reachable h.retry hsecond
  have hthird := h.third
  split at hthird
  · next hneeds =>
    have hturned : (scanning t s₀).Reachable { scan := s₂.third } :=
      hretried.step (l := .turn) (by simp [scanning, Scanning.step, Scanning.turn, hpass₂, hneeds])
    have hpass₃ : s₃.pass = .third := Serving.pass hthird.served
    refine (Pass.reachable hthird hturned).step (l := .turn) ?_
    simp [scanning, Scanning.step, Scanning.turn, hpass₃]
  · next hneeds =>
    refine hretried.step (l := .turn) ?_
    simp [scanning, Scanning.step, Scanning.turn, hpass₂, hneeds, hthird.2]

end Reach

end NetScanner.Ports
